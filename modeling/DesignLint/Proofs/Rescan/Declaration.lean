import DesignLint.Proofs.Rescan.Basic
import DesignLint.Proofs.Rescan.Comment

/-!
# Declarations that are found again

Declarations are found by a scan (`map_found_declarations`). In front of a value it finds the same
declarations whatever the value is, if it can stand there (`agree_declarationOf?`). So if a declared
value is replaced, what is declared in its place starts where the value does
(`start_eq_of_mem_declarations`).
-/

namespace DesignLint.Style

/-! ### The scan -/

/-- The points around the value of a declaration. -/
def Declaration.found (d : Declaration) : Found := ⟨d.start, d.stop⟩

/-- The first declaration at a point, as something found. -/
def findDeclaration (properties : List Text) (k : Cursor) : Option Found :=
  (declarationAt? properties k).map Declaration.found

theorem map_declarationFrom? (properties : List Text) (before : Option Char) (k : Cursor) :
    (declarationFrom? properties before k).map Declaration.found =
      findFrom separates (findDeclaration properties) before k := by
  simp only [findFrom, findDeclaration, declarationFrom?]
  split_ifs
  · cases declarationAt? properties k <;> rfl
  · cases declarationAt? properties k <;> rfl
  · rfl
  · rfl

theorem finds_findDeclaration (properties : List Text) :
    Finds (findFrom separates (findDeclaration properties)) := by
  intro before k f h
  rw [← map_declarationFrom?] at h
  obtain ⟨d, hd, rfl⟩ := Option.map_eq_some_iff.mp h
  obtain ⟨⟨us, gap, hus, -, c, hc, -⟩, ⟨vs, hvs, -⟩, -, -⟩ := ahead_of_declarationFrom? hd
  refine ⟨us ++ gap, vs, ?_, hus, hvs⟩
  rw [ne_eq, List.append_eq_nil_iff, not_and]
  rintro rfl
  cases hc

theorem map_found_declarations (properties : List Text) (busy : Nat) (before : Option Char)
    (o : Nat) (cs : Text) : (declarations properties busy before o cs).map Declaration.found =
      scan 0 (findFrom separates (findDeclaration properties)) busy before o cs := by
  induction cs generalizing busy before o with
  | nil => rfl
  | cons c cs ih =>
    cases busy with
    | succ busy => exact ih busy _ _
    | zero =>
      simp only [declarations, scan, ← map_declarationFrom?]
      cases declarationFrom? properties before ⟨o, c :: cs⟩ with
      | none => exact ih 0 _ _
      | some d => exact congrArg _ (ih _ _ _)

/-! ### One declaration -/

/-- Whether a character may stand between a colon and a value. -/
def isPad (c : Char) : Bool := c == ' ' || c == '\t'

/-- The declaration with a name whose colon has been read. -/
def valueFrom? (name : Text) (l : Cursor) : Option Declaration :=
  let start := l.skipWhile isPad
  let value := Text.trimEnd (start.rest.takeWhile isValueChar)
  if value == [] then none else some ⟨name, start, start.skip value.length⟩

theorem dropPrefixFold_iff {lead cs rest : Text} : Text.dropPrefixFold lead cs = some rest ↔
    ∃ us, cs = us ++ rest ∧ Text.dropPrefixFold lead us = some [] := by
  fun_induction Text.dropPrefixFold lead cs with
  | case1 cs => simp [Text.dropPrefixFold]
  | case2 a lead => simp [Text.dropPrefixFold]
  | case3 a lead c cs h ih =>
    rw [ih]
    constructor
    · rintro ⟨us, rfl, hus⟩
      exact ⟨c :: us, rfl, by rw [Text.dropPrefixFold, if_pos h, hus]⟩
    · rintro ⟨us, hcs, hus⟩
      cases us with
      | nil => simp [Text.dropPrefixFold] at hus
      | cons d us =>
        obtain ⟨rfl, rfl⟩ := List.cons.inj hcs
        rw [Text.dropPrefixFold, if_pos h] at hus
        exact ⟨us, rfl, hus⟩
  | case4 a lead c cs h =>
    refine ⟨fun h => (by cases h), ?_⟩
    rintro ⟨us, hcs, hus⟩
    cases us with
    | nil => simp [Text.dropPrefixFold] at hus
    | cons d us =>
      obtain ⟨rfl, rfl⟩ := List.cons.inj hcs
      rw [Text.dropPrefixFold, if_neg h] at hus
      cases hus

section

variable {property name blanks rest : Text}

theorem declarationOf?_append (hname : Text.dropPrefixFold property name = some [])
    (hblanks : ∀ c ∈ blanks, isBlank c) (o : Nat) :
    declarationOf? property ⟨o, name ++ (blanks ++ ':' :: rest)⟩ =
      valueFrom? name ⟨o + Text.size (name ++ (blanks ++ [':'])), rest⟩ := by
  have hdrop : Text.dropPrefixFold property (name ++ (blanks ++ ':' :: rest)) =
      some (blanks ++ ':' :: rest) := dropPrefixFold_iff.mpr ⟨name, rfl, hname⟩
  have htake : (name ++ (blanks ++ ':' :: rest)).take
      ((name ++ (blanks ++ ':' :: rest)).length - (blanks ++ ':' :: rest).length) = name := by
    rw [List.length_append, Nat.add_sub_cancel, List.take_left]
  have hskip : Cursor.skipWhile isBlank ⟨o + Text.size name, blanks ++ ':' :: rest⟩ =
      ⟨o + Text.size name + Text.size blanks, ':' :: rest⟩ :=
    Cursor.skipWhile_append hblanks (by simp; decide) _
  have hcolon : Cursor.skipText [':'] ⟨o + Text.size name + Text.size blanks, ':' :: rest⟩ =
      some ⟨o + Text.size (name ++ (blanks ++ [':'])), rest⟩ :=
    Cursor.skipText_eq_some.mpr ⟨rfl, by simp [Nat.add_assoc]⟩
  have hpad : (fun c => c == ' ' || c == '\t') = isPad := rfl
  unfold declarationOf? valueFrom?
  simp only [hpad, hdrop, htake, hskip, hcolon, Option.bind_eq_bind, Option.bind_some, guard]
  split_ifs <;> simp_all

theorem exists_of_declarationOf? {o : Nat} {cs : Text} {d : Declaration}
    (h : declarationOf? property ⟨o, cs⟩ = some d) :
    ∃ name blanks rest, cs = name ++ (blanks ++ ':' :: rest) ∧
      Text.dropPrefixFold property name = some [] ∧ (∀ c ∈ blanks, isBlank c) ∧
      valueFrom? name ⟨o + Text.size (name ++ (blanks ++ [':'])), rest⟩ = some d := by
  have hd := h
  unfold declarationOf? at h
  simp only [Option.bind_eq_bind, Option.bind_eq_some_iff] at h
  obtain ⟨rest, hrest, l, hl, -⟩ := h
  obtain ⟨name, rfl, hname⟩ := dropPrefixFold_iff.mp hrest
  obtain ⟨bs, hbs, hblanks, -⟩ := Cursor.exists_skipWhile isBlank
    ⟨o + Text.size ((name ++ rest).take ((name ++ rest).length - rest.length)), rest⟩
  have hcs : rest = bs ++ ':' :: l.rest := by
    rw [← List.singleton_append, ← (Cursor.skipText_passes hl).1]
    exact hbs.1
  rw [hcs] at hd
  exact ⟨name, bs, l.rest, by rw [hcs], hname, hblanks,
    (declarationOf?_append hname hblanks o).symm.trans hd⟩

end

/-! ### In front of a value -/

section

variable {x t : Text} (hx : Fits x) (ht : Fits t) (rest : Text)

theorem trimEnd_takeWhile (h : Fits x) {us : Text} (hus : ∀ c ∈ us, isValueChar c) :
    Text.trimEnd ((us ++ (x ++ rest)).takeWhile isValueChar) =
      us ++ x ++ Text.trimEnd (rest.takeWhile isValueChar) := by
  obtain ⟨c, hc, hb, -⟩ := h.last
  rw [List.takeWhile_append_of_pos hus, List.takeWhile_append_of_pos h.value, ← List.append_assoc]
  refine Text.trimEnd_append ⟨c, ?_, hb⟩ _
  rw [List.getLast?_append, hc]
  rfl

theorem Fits.ne_nil (h : Fits x) : x ≠ [] := by
  rintro rfl
  obtain ⟨c, hc, -⟩ := h.head
  cases hc

theorem Fits.not_isPad (h : Fits x) : ∀ c ∈ (x ++ rest).head?, ¬ isPad c := by
  intro c hc
  obtain ⟨d, hd, hspace, htab⟩ := h.head
  rw [List.head?_append, Option.mem_def.mp hd] at hc
  obtain rfl : d = c := by simpa using hc
  simp [isPad, hspace, htab]

/-- What is found behind a colon and spaces: a text from which the blanks at its end are trimmed. -/
theorem valueFrom?_eq {sp value cs : Text} (hsp : ∀ c ∈ sp, isPad c)
    (hhead : ∀ c ∈ (value ++ cs).head?, ¬ isPad c)
    (hvalue : Text.trimEnd ((value ++ cs).takeWhile isValueChar) = value) (name : Text) (o : Nat) :
    valueFrom? name ⟨o, sp ++ (value ++ cs)⟩ =
      if value = [] then none
      else some ⟨name, ⟨o + Text.size sp, value ++ cs⟩,
        ⟨o + Text.size sp + Text.size value, cs⟩⟩ := by
  have hskip := Cursor.skipWhile_append hsp hhead o
  unfold valueFrom?
  simp only [hskip, hvalue, beq_iff_eq, Cursor.skip_append]

theorem map_valueFrom? {sp value cs : Text} (hsp : ∀ c ∈ sp, isPad c)
    (hhead : ∀ c ∈ (value ++ cs).head?, ¬ isPad c)
    (hvalue : Text.trimEnd ((value ++ cs).takeWhile isValueChar) = value) (name : Text) (o : Nat) :
    (valueFrom? name ⟨o, sp ++ (value ++ cs)⟩).map Declaration.found =
      if value = [] then none
      else some ⟨⟨o + Text.size sp, value ++ cs⟩,
        ⟨o + Text.size sp + Text.size value, cs⟩⟩ := by
  rw [valueFrom?_eq hsp hhead hvalue]
  split_ifs <;> rfl

theorem exists_trimEnd_takeWhile (us : Text) : ∃ es,
    us = Text.trimEnd (us.takeWhile isValueChar) ++ (es ++ us.dropWhile isValueChar) := by
  obtain ⟨es, hes, -, -⟩ := Text.exists_trimEnd (us.takeWhile isValueChar)
  exact ⟨es, by rw [← List.append_assoc, ← hes, List.takeWhile_append_dropWhile]⟩

include hx in
/-- Behind spaces and value characters, what fits and what can be declared behind it are found as
one value. -/
theorem map_valueFrom?_of_fits {sp vs after : Text} (hsp : ∀ c ∈ sp, isPad c)
    (hvs : ∀ c ∈ vs, isValueChar c) (hhead : ∀ c ∈ (vs ++ (x ++ rest)).head?, ¬ isPad c)
    (hrest : rest = Text.trimEnd (rest.takeWhile isValueChar) ++ after) (name : Text) (o : Nat) :
    (valueFrom? name ⟨o, sp ++ (vs ++ (x ++ rest))⟩).map Declaration.found =
      some ⟨⟨o + Text.size sp, vs ++ (x ++ rest)⟩, ⟨o + Text.size sp +
        Text.size (vs ++ x ++ Text.trimEnd (rest.takeWhile isValueChar)), after⟩⟩ := by
  have hvalue := trimEnd_takeWhile rest hx hvs
  have hsplit : vs ++ (x ++ rest) =
      vs ++ x ++ Text.trimEnd (rest.takeWhile isValueChar) ++ after := by
    conv => lhs; rw [hrest]
    simp only [List.append_assoc]
  rw [hsplit] at hhead hvalue ⊢
  rw [map_valueFrom? hsp hhead hvalue, if_neg (by simp [hx.ne_nil])]

/-- What is found behind spaces ends at the first character that no value has, whatever is behind
it. -/
theorem map_valueFrom?_of_stop {sp us es ws : Text} {d : Char} (hsp : ∀ c ∈ sp, isPad c)
    (hhead : ∀ c ∈ us.head?, ¬ isPad c) (hd : us.dropWhile isValueChar = d :: ws)
    (hus : us = Text.trimEnd (us.takeWhile isValueChar) ++ (es ++ d :: ws)) (w name : Text)
    (o : Nat) :
    (valueFrom? name ⟨o, sp ++ (us ++ w)⟩).map Declaration.found =
      if Text.trimEnd (us.takeWhile isValueChar) = [] then none
      else some ⟨⟨o + Text.size sp, us ++ w⟩, ⟨o + Text.size sp +
        Text.size (Text.trimEnd (us.takeWhile isValueChar)), es ++ d :: ws ++ w⟩⟩ := by
  have hstop : ¬ isValueChar d := by
    have := List.head?_dropWhile_not isValueChar us
    rw [hd] at this
    simpa using this
  have hvalue : Text.trimEnd ((us ++ w).takeWhile isValueChar) =
      Text.trimEnd (us.takeWhile isValueChar) := by
    have hchars : ∀ c ∈ us.takeWhile isValueChar, isValueChar c := fun c hc =>
      List.mem_takeWhile_imp hc
    have hsplit : us ++ w = us.takeWhile isValueChar ++ (d :: ws ++ w) := by
      rw [← List.append_assoc, ← hd, List.takeWhile_append_dropWhile]
    rw [hsplit, List.takeWhile_append_of_pos hchars, List.cons_append,
      List.takeWhile_cons_of_neg hstop, List.append_nil]
  have hhead' : ∀ c ∈ (us ++ w).head?, ¬ isPad c := by
    intro c hc
    refine hhead c ?_
    cases us with
    | nil => simp at hd
    | cons u us => exact hc
  have hsplit : us ++ w = Text.trimEnd (us.takeWhile isValueChar) ++ (es ++ d :: ws ++ w) := by
    conv => lhs; rw [hus]
    simp only [List.append_assoc]
  generalize Text.trimEnd (us.takeWhile isValueChar) = value at hvalue hsplit
  rw [hsplit] at hvalue hhead' ⊢
  exact map_valueFrom? hsp hhead' hvalue name o

include hx ht in
/-- Behind a colon, what is declared in front of a value does not depend on it. -/
theorem agree_valueFrom? (name us : Text) (o : Nat) :
    Agree (o + Text.size us) (x ++ rest) (t ++ rest) (Text.size t)
      ((valueFrom? name ⟨o, us ++ (x ++ rest)⟩).map Declaration.found)
      ((valueFrom? name ⟨o, us ++ (t ++ rest)⟩).map Declaration.found) := by
  obtain ⟨sp, us, rfl, hsp, hhead⟩ : ∃ sp vs, us = sp ++ vs ∧ (∀ c ∈ sp, isPad c) ∧
      ∀ c ∈ vs.head?, ¬ isPad c := by
    refine ⟨_, _, (List.takeWhile_append_dropWhile (p := isPad)).symm,
      fun c hc => List.mem_takeWhile_imp hc, fun c hc => ?_⟩
    have hnot := List.head?_dropWhile_not isPad us
    rw [Option.mem_def.mp hc] at hnot
    simpa using hnot
  obtain ⟨bs, hrest⟩ := exists_trimEnd_takeWhile rest
  have hpos := Text.size_pos hx.ne_nil
  simp only [List.append_assoc sp]
  by_cases hall : ∀ c ∈ us, isValueChar c
  · cases us with
    | nil =>
      -- the value itself starts behind the spaces
      have hnil : ∀ c ∈ ([] : Text), isValueChar c := by simp
      have hvalue := map_valueFrom?_of_fits ht rest hsp hnil (ht.not_isPad rest) hrest name o
      rw [List.nil_append] at hvalue
      rw [List.nil_append, List.nil_append, hvalue]
      refine .beyond _ (Or.inl (by simp)) ?_
      simp only [List.append_nil, List.nil_append, Text.size_append]
      omega
    | cons u us =>
      -- what starts in front of the value goes on to it
      rw [map_valueFrom?_of_fits hx rest hsp hall (by simpa using hhead) hrest name o]
      have := u.utf8Size_pos
      refine .across _ ?_ ?_
      · simp only [Text.size_append, Text.size_cons]
        omega
      · simp only [Text.size_append, Text.size_cons]
        omega
  · -- what starts in front of the value ends there
    obtain ⟨d, ws, hd⟩ := List.exists_cons_of_ne_nil (l := us.dropWhile isValueChar) fun h =>
      hall (List.dropWhile_eq_nil_iff.mp h)
    obtain ⟨es, hus⟩ := exists_trimEnd_takeWhile us
    rw [hd] at hus
    have hfront := fun w => map_valueFrom?_of_stop hsp hhead hd hus w name o
    rw [hfront, hfront]
    have hsize := congrArg Text.size hus
    simp only [Text.size_append, Text.size_cons] at hsize
    have := d.utf8Size_pos
    split_ifs
    · exact .none
    · refine .before (es ++ d :: ws) ?_ ?_ rfl rfl
      · simp only [Text.size_append]
        omega
      · simp only [Text.size_append]
        omega

/-- A property whose colon is not in front of a value is declared behind the value, if there is no
colon in it. -/
theorem lt_start_of_declarationOf? {property us w : Text} {o : Nat} {d : Declaration}
    (hus : ¬ ∃ name blanks vs, us = name ++ (blanks ++ ':' :: vs) ∧
      Text.dropPrefixFold property name = some [] ∧ ∀ c ∈ blanks, isBlank c)
    (h : declarationOf? property ⟨o, us ++ (w ++ rest)⟩ = some d) :
    d.start.offset ≤ d.stop.offset ∧ o + Text.size us < d.start.offset ∧
      (':' ∉ w → o + Text.size us + Text.size w ≤ d.start.offset) := by
  obtain ⟨-, ⟨vs, hvs, -⟩, -, -⟩ := ahead_of_declarationOf? h
  obtain ⟨name, blanks, ds, hcs, hname, hblanks, hd⟩ := exists_of_declarationOf? h
  obtain ⟨pad, hpad, -, -⟩ := Cursor.exists_skipWhile isPad
    ⟨o + Text.size (name ++ (blanks ++ [':'])), ds⟩
  have hstart : d.start =
      Cursor.skipWhile isPad ⟨o + Text.size (name ++ (blanks ++ [':'])), ds⟩ := by
    unfold valueFrom? at hd
    simp only at hd
    split_ifs at hd
    cases hd
    rfl
  have hle := hpad.le
  rw [← hstart] at hle
  have hcolon : ':'.utf8Size = 1 := rfl
  simp only [Text.size_append, Text.size_cons, Text.size_nil, hcolon] at hle
  obtain ⟨ys, hys, hw⟩ : ∃ ys, name ++ blanks = us ++ ys ∧ w ++ rest = ys ++ ':' :: ds := by
    rw [← List.append_assoc name] at hcs
    rcases List.append_eq_append_iff.mp hcs with h | ⟨ys, rfl, hys⟩
    · exact h
    · cases ys with
      | nil => exact ⟨[], by simp, hys.symm⟩
      | cons y ys =>
        obtain ⟨rfl, -⟩ := List.cons.inj hys
        exact absurd ⟨name, blanks, ys, List.append_assoc _ _ _, hname, hblanks⟩ hus
  have hsize := congrArg Text.size hys
  simp only [Text.size_append] at hsize
  refine ⟨hvs.le, by omega, fun hnot => ?_⟩
  rcases List.append_eq_append_iff.mp hw with ⟨zs, rfl, -⟩ | ⟨zs, rfl, hzs⟩
  · simp only [Text.size_append] at hsize
    omega
  · cases zs with
    | nil =>
      simp only [List.append_nil]
      omega
    | cons z zs =>
      obtain rfl := (List.cons.inj hzs).1
      simp at hnot

include hx ht in
/-- **In front of a value, the same declarations are found whatever the value is.** -/
theorem agree_declarationOf? (hcolon : ':' ∉ t) (property us : Text) (o : Nat) :
    Agree (o + Text.size us) (x ++ rest) (t ++ rest) (Text.size t)
      ((declarationOf? property ⟨o, us ++ (x ++ rest)⟩).map Declaration.found)
      ((declarationOf? property ⟨o, us ++ (t ++ rest)⟩).map Declaration.found) := by
  by_cases hus : ∃ name blanks vs, us = name ++ (blanks ++ ':' :: vs) ∧
      Text.dropPrefixFold property name = some [] ∧ ∀ c ∈ blanks, isBlank c
  · obtain ⟨name, blanks, vs, rfl, hname, hblanks⟩ := hus
    have hread : ∀ w : Text, declarationOf? property
        ⟨o, name ++ (blanks ++ ':' :: vs) ++ (w ++ rest)⟩ =
          valueFrom? name ⟨o + Text.size (name ++ (blanks ++ [':'])), vs ++ (w ++ rest)⟩ := by
      intro w
      simpa only [List.append_assoc, List.cons_append] using declarationOf?_append hname hblanks o
    have hsize : o + Text.size (name ++ (blanks ++ ':' :: vs)) =
        o + Text.size (name ++ (blanks ++ [':'])) + Text.size vs := by
      simp [Nat.add_assoc]
    rw [hread, hread, hsize]
    exact agree_valueFrom? hx ht rest name vs _
  · cases hnew : declarationOf? property ⟨o, us ++ (t ++ rest)⟩ with
    | some d =>
      obtain ⟨hle, -, hstart⟩ := lt_start_of_declarationOf? rest hus hnew
      exact .beyond _ (Or.inr (hstart hcolon)) (Nat.le_trans (hstart hcolon) hle)
    | none =>
      cases hold : declarationOf? property ⟨o, us ++ (x ++ rest)⟩ with
      | some d =>
        obtain ⟨hle, hstart, -⟩ := lt_start_of_declarationOf? rest hus hold
        exact .across _ (Nat.ne_of_gt hstart) (Nat.lt_of_lt_of_le hstart hle)
      | none => exact .none

include hx ht in
/-- **What is declared again in place of a value starts where the value does.** -/
theorem start_eq_of_mem_declarations (hcolon : ':' ∉ t) {properties : List Text} {lead : Text}
    {d d' : Declaration} (hd : d ∈ declarations properties 0 none 0 (lead ++ (x ++ rest)))
    (hstart : d.start.offset = Text.size lead)
    (hd' : d' ∈ declarations properties 0 none 0 (lead ++ (t ++ rest))) :
    d'.stop.offset ≤ Text.size lead ∨ d'.start.offset = Text.size lead ∨
      Text.size lead + Text.size t ≤ d'.start.offset := by
  have hmem := List.mem_map_of_mem (f := Declaration.found) hd
  have hmem' := List.mem_map_of_mem (f := Declaration.found) hd'
  rw [map_found_declarations] at hmem hmem'
  have hat : ∀ (o : Nat) (us : Text), Agree (o + Text.size us) (x ++ rest) (t ++ rest) (Text.size t)
      (findDeclaration properties ⟨o, us ++ (x ++ rest)⟩)
      (findDeclaration properties ⟨o, us ++ (t ++ rest)⟩) := by
    intro o us
    unfold findDeclaration declarationAt?
    rw [List.map_findSome?, List.map_findSome?]
    exact Agree.findSome? properties fun property =>
      agree_declarationOf? hx ht rest hcolon property us o
  exact start_eq_of_mem_scan_findFrom hat (finds_findDeclaration properties) hmem hstart hmem'

end

end DesignLint.Style
