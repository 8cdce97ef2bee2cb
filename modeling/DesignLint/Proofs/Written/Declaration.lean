import DesignLint.Proofs.Rescan.Sheet
import DesignLint.Proofs.Text.Class
import DesignLint.Proofs.Written.Sheet

/-!
# How a scan reads a declaration

Where a property is declared, its name is followed by blanks and a colon (`Declares`). In front of a
declaration stand a brace or a semicolon and blanks (`Leads`), and no property starts there: up to
the next colon it would have the brace or the semicolon in it, or start with a blank
(`not_declares_lead`). So a scan that comes to a declaration finds it if its property is watched and
goes on behind its value (`exists_declarations_watched`), and else goes on where its value ends
(`exists_declarations_unwatched`).
-/

namespace DesignLint.Style

/-- What is watched in a sheet: an ASCII name in which no declaration can start or end. -/
structure PropertyName (q : Text) : Prop where
  ne_nil : q ≠ []
  trim : Text.trim q = q
  ascii : ∀ c ∈ q, c.toNat < 128
  apart : ∀ c ∈ q, c ∉ [';', '\x7b', ':']

/-- A text that starts with one of some properties, regardless of case, and a colon behind it. -/
def Declares (properties : List Text) (us : Text) : Prop := ∃ q ∈ properties, ∃ name blanks rest,
  us = name ++ (blanks ++ ':' :: rest) ∧ Text.dropPrefixFold q name = some [] ∧
    ∀ c ∈ blanks, isBlank c

/-- Whether the property of a declaration is one of some properties, regardless of case. -/
def WrittenDeclaration.watched (properties : List Text) (d : WrittenDeclaration) : Bool :=
  (properties.map Text.lower).contains d.property

/-- A declaration that is read as it is written: unless its property is watched, nothing in its
value looks like a declaration of a watched property behind a blank. -/
def WrittenDeclaration.Readable (properties : List Text) (d : WrittenDeclaration) : Prop :=
  d.watched properties = false → ∀ as bs, d.pad ++ d.value = as ++ bs →
    (∃ c ∈ as.getLast?, DesignLint.isBlank c) → ¬ Declares properties bs

/-! ### Letters regardless of case -/

theorem forall₂_of_dropPrefixFold {q us : Text} (h : Text.dropPrefixFold q us = some []) :
    List.Forall₂ (fun a c => sameLetter a c) q us := by
  fun_induction Text.dropPrefixFold q us with
  | case1 cs =>
    cases h
    exact .nil
  | case2 a lead => cases h
  | case3 a lead c cs hc ih => exact .cons hc (ih h)
  | case4 a lead c cs hc => cases h

theorem eq_of_sameLetter {a c : Char} (ha : a.toNat < 128) (hfold : caseFold c = c)
    (hc : c.isAlpha = false) (h : sameLetter a c) : a = c := by
  have hlower : a.toLower = c := by
    rw [sameLetter, beq_iff_eq, caseFold_of_isAscii ha, hfold] at h
    exact h
  have hsame := of_isAscii (P := fun a => a.toLower.isAlpha = false → a.toLower = a)
    (by decide +kernel) ha
  rw [hlower] at hsame
  exact (hsame hc).symm

theorem exists_sameLetter {q us : Text} (h : List.Forall₂ (fun a c => sameLetter a c) q us)
    {c : Char} (hc : c ∈ us) : ∃ a ∈ q, sameLetter a c := by
  induction h with
  | nil => exact absurd hc List.not_mem_nil
  | cons hac _ ih =>
    rcases List.mem_cons.mp hc with rfl | hc
    · exact ⟨_, .head _, hac⟩
    · obtain ⟨b, hb, hbc⟩ := ih hc
      exact ⟨b, List.mem_cons_of_mem _ hb, hbc⟩

/-- A property, however it is spelled: it starts and ends as one, and no declaration starts or ends
in it. -/
structure Spelled (name : Text) : Prop where
  ne_nil : name ≠ []
  head : ∀ c ∈ name.head?, ¬ isBlank c
  last : ∀ c ∈ name.getLast?, ¬ isBlank c
  apart : ∀ c ∈ name, c ∉ [';', '\x7b', ':']

theorem head?_of_forall₂ {q us : Text} (h : List.Forall₂ (fun a c => sameLetter a c) q us)
    {c : Char} (hc : c ∈ us.head?) : ∃ a ∈ q.head?, sameLetter a c := by
  cases h with
  | nil => cases hc
  | cons hac _ =>
    obtain rfl := Option.some.inj hc
    exact ⟨_, rfl, hac⟩

theorem getLast?_of_forall₂ {q us : Text} (h : List.Forall₂ (fun a c => sameLetter a c) q us)
    {c : Char} (hc : c ∈ us.getLast?) : ∃ a ∈ q.getLast?, sameLetter a c := by
  rw [← List.head?_reverse] at hc ⊢
  exact head?_of_forall₂ (List.forall₂_reverse_iff.mpr h) hc

theorem not_isBlank_of_sameLetter {a c : Char} (ha : a.toNat < 128) (hblank : ¬ isBlank a)
    (h : sameLetter a c) : ¬ isBlank c := by
  intro hc
  obtain rfl := eq_of_sameLetter ha (caseFold_of_isBlank hc) (not_isAlpha_of_isBlank hc) h
  exact hblank hc

theorem PropertyName.spelled {q name : Text} (hq : PropertyName q)
    (h : Text.dropPrefixFold q name = some []) : Spelled name := by
  have hall := forall₂_of_dropPrefixFold h
  obtain ⟨-, -, -, hhead, hlast⟩ := Text.exists_trim q
  rw [hq.trim] at hhead hlast
  constructor
  · rintro rfl
    cases hall
    exact hq.ne_nil rfl
  · intro c hc
    obtain ⟨a, ha, hac⟩ := head?_of_forall₂ hall hc
    exact not_isBlank_of_sameLetter (hq.ascii a (List.mem_of_mem_head? ha)) (hhead a ha) hac
  · intro c hc
    obtain ⟨a, ha, hac⟩ := getLast?_of_forall₂ hall hc
    exact not_isBlank_of_sameLetter (hq.ascii a (List.mem_of_mem_getLast? ha)) (hlast a ha) hac
  · intro c hc hmark
    obtain ⟨a, ha, hac⟩ := exists_sameLetter hall hc
    have hmarks : ∀ d ∈ [';', '\x7b', ':'], caseFold d = d ∧ d.isAlpha = false :=
      List.all_iff_forall_prop.mp (by decide +kernel)
    obtain ⟨hfold, halpha⟩ := hmarks c hmark
    obtain rfl := eq_of_sameLetter (hq.ascii a ha) hfold halpha hac
    exact hq.apart a ha hmark

theorem dropPrefixFold_of_isAscii {q us : Text} (hq : ∀ c ∈ q, c.toNat < 128)
    (hus : ∀ c ∈ us, c.toNat < 128) :
    Text.dropPrefixFold q us = some [] ↔ Text.lower q = Text.lower us := by
  induction q generalizing us with
  | nil =>
    cases us with
    | nil => simp [Text.dropPrefixFold]
    | cons c us => simp [Text.dropPrefixFold, Text.lower]
  | cons a q ih =>
    cases us with
    | nil => simp [Text.dropPrefixFold, Text.lower]
    | cons c us =>
      have hletter := sameLetter_iff_of_isAscii (hq a (by simp)) (hus c (by simp))
      have hus' : ∀ d ∈ us, d.toNat < 128 := fun d hd => hus d (by simp [hd])
      have hrest := ih (fun d hd => hq d (by simp [hd])) hus'
      simp only [Text.lower, List.map_cons, List.cons.injEq] at hrest ⊢
      rw [Text.dropPrefixFold, ← hletter, ← hrest]
      split_ifs with h <;> simp [h]

section

variable {properties : List Text} {us vs ws : Text}

/-! ### Where nothing is declared -/

theorem declarationAt?_eq_none (h : ¬ Declares properties us) (o : Nat) :
    declarationAt? properties ⟨o, us⟩ = none := by
  refine List.findSome?_eq_none_iff.mpr fun q hq => ?_
  rw [Option.eq_none_iff_forall_ne_some]
  intro d hd
  obtain ⟨name, blanks, rest, hus, hname, hblanks, -⟩ := exists_of_declarationOf? hd
  exact h ⟨q, hq, name, blanks, rest, hus, hname, hblanks⟩

theorem takeWhile_colon (h : ':' ∉ us) (vs : Text) :
    (us ++ ':' :: vs).takeWhile (· != ':') = us := by
  rw [List.takeWhile_append_of_pos fun c hc => bne_iff_ne.mpr (ne_of_mem_of_not_mem hc h)]
  simp

theorem colon_not_mem_blanks (h : ∀ c ∈ us, isBlank c) : ':' ∉ us := fun hmem =>
  absurd (h _ hmem) (by decide)

theorem Spelled.colon_not_mem {name : Text} (h : Spelled name) (hws : ∀ c ∈ ws, isBlank c) :
    ':' ∉ name ++ ws := by
  rw [List.mem_append, not_or]
  exact ⟨fun hmem => absurd (h.apart _ hmem) (by decide), colon_not_mem_blanks hws⟩

theorem Declares.exists_key (hprops : ∀ q ∈ properties, PropertyName q)
    (h : Declares properties us) : ':' ∈ us ∧ ∃ name blanks,
      us.takeWhile (· != ':') = name ++ blanks ∧
      (∃ q ∈ properties, Text.dropPrefixFold q name = some []) ∧ Spelled name ∧
      ∀ c ∈ blanks, isBlank c := by
  obtain ⟨q, hq, name, blanks, rest, rfl, hname, hblanks⟩ := h
  have hspelled := (hprops q hq).spelled hname
  refine ⟨by simp, name, blanks, ?_, ⟨q, hq, hname⟩, hspelled, hblanks⟩
  rw [← List.append_assoc, takeWhile_colon (hspelled.colon_not_mem hblanks)]

theorem separates_of_isBlank {c : Char} (h : isBlank c) : separates c := by simp [separates, h]

variable (hprops : ∀ q ∈ properties, PropertyName q)

include hprops

theorem not_declares_of_not_mem (h : ':' ∉ us) : ¬ Declares properties us :=
  fun hd => h (hd.exists_key hprops).1

/-- Nothing is declared by a text with a brace or a semicolon in front of its first colon. -/
theorem not_declares_mark (hus : ':' ∉ us) (hmark : ∃ c ∈ us, c = ';' ∨ c = '\x7b') (rest : Text) :
    ¬ Declares properties (us ++ ':' :: rest) := by
  intro hd
  obtain ⟨-, key, blanks, hkey, -, hspelled, hblanks⟩ := hd.exists_key hprops
  rw [takeWhile_colon hus] at hkey
  obtain ⟨c, hc, hmark⟩ := hmark
  rw [hkey, List.mem_append] at hc
  rcases hc with hc | hc
  · have := hspelled.apart c hc
    simp only [List.mem_cons, not_or] at this
    tauto
  · rcases hmark with rfl | rfl <;> exact absurd (hblanks _ hc) (by decide)

theorem not_declares_blank (hus : ∃ c ∈ us.head?, isBlank c) (rest : Text) :
    ¬ Declares properties (us ++ rest) := by
  intro hd
  obtain ⟨q, hq, name, blanks, vs, heq, hname, -⟩ := hd
  have hspelled := (hprops q hq).spelled hname
  obtain ⟨c, hc, hblank⟩ := hus
  obtain ⟨d, name, rfl⟩ := List.exists_cons_of_ne_nil hspelled.ne_nil
  obtain ⟨us, rfl⟩ := List.head?_eq_some_iff.mp hc
  obtain rfl : c = d := by simpa using congrArg List.head? heq
  exact hspelled.head c rfl hblank

theorem not_declares_blanks (hws : ∀ c ∈ ws, isBlank c) (rest : Text) :
    ¬ Declares properties (ws ++ ':' :: rest) := by
  cases ws with
  | nil =>
    intro hd
    obtain ⟨-, key, blanks, hkey, -, hspelled, -⟩ := hd.exists_key hprops
    have hnil : key ++ blanks = [] := hkey.symm
    exact hspelled.ne_nil (List.append_eq_nil_iff.mp hnil).1
  | cons c ws => exact not_declares_blank hprops ⟨c, rfl, hws c (.head _)⟩ _

omit hprops in
theorem eq_of_key {name key blanks rest rest' : Text} (hname : ∀ c ∈ name, ¬ isBlank c ∧ c ≠ ':')
    (hws : ∀ c ∈ ws, isBlank c) (hkey : Spelled key) (hblanks : ∀ c ∈ blanks, isBlank c)
    (h : key ++ (blanks ++ ':' :: rest') = name ++ (ws ++ ':' :: rest)) :
    key = name ∧ blanks = ws ∧ rest' = rest := by
  have hright : ':' ∉ name ++ ws := by
    rw [List.mem_append, not_or]
    exact ⟨fun h => (hname _ h).2 rfl, colon_not_mem_blanks hws⟩
  rw [← List.append_assoc, ← List.append_assoc] at h
  have hfront : key ++ blanks = name ++ ws := by
    rw [← takeWhile_colon (hkey.colon_not_mem hblanks) rest', h, takeWhile_colon hright]
  have hrest : rest' = rest := by simpa [hfront] using h
  suffices hsame : key = name from
    ⟨hsame, by rw [hsame] at hfront; exact List.append_cancel_left hfront, hrest⟩
  rcases List.append_eq_append_iff.mp hfront with ⟨as, rfl, has⟩ | ⟨as, rfl, has⟩
  · cases as with
    | nil => exact (List.append_nil key).symm
    | cons a as => exact absurd (hblanks a (by simp [has])) (hname a (by simp)).1
  · -- blanks behind the name are none of the property, which does not end with one
    rcases List.eq_nil_or_concat as with rfl | ⟨as, a, rfl⟩
    · exact List.append_nil name
    · exact absurd (hws a (by simp [has])) (hkey.last a (by simp))

/-- What is declared in front of a name is a spelling of that name. -/
theorem dropPrefixFold_of_declares {name : Text} (hname : ∀ c ∈ name, ¬ isBlank c ∧ c ≠ ':')
    (hws : ∀ c ∈ ws, isBlank c) {rest : Text}
    (hd : Declares properties (name ++ (ws ++ ':' :: rest))) :
    ∃ q ∈ properties, Text.dropPrefixFold q name = some [] := by
  obtain ⟨q, hq, key, blanks, rest', heq, hkey, hblanks⟩ := hd
  obtain ⟨rfl, -, -⟩ := eq_of_key hname hws ((hprops q hq).spelled hkey) hblanks heq.symm
  exact ⟨q, hq, hkey⟩

/-- Nothing is declared by a text behind which a semicolon precedes the next colon. -/
theorem not_declares_semicolon (hus : ¬ Declares properties us) (hvs : ':' ∉ vs) (rest : Text) :
    ¬ Declares properties (us ++ (vs ++ ';' :: rest)) := by
  intro hd
  obtain ⟨hmem, key, blanks, hkey, ⟨q, hq, hname⟩, -, hblanks⟩ := hd.exists_key hprops
  by_cases hcolon : ':' ∈ us
  · obtain ⟨as, bs, rfl, has⟩ := List.eq_append_cons_of_mem hcolon
    rw [List.append_assoc, List.cons_append, takeWhile_colon has] at hkey
    exact hus ⟨q, hq, key, blanks, bs, by rw [hkey, List.append_assoc], hname, hblanks⟩
  · have hrest : ':' ∈ rest := by simpa [hcolon, hvs] using hmem
    obtain ⟨as, bs, rfl, has⟩ := List.eq_append_cons_of_mem hrest
    have hsplit : us ++ (vs ++ ';' :: (as ++ ':' :: bs)) =
        (us ++ (vs ++ ';' :: as)) ++ ':' :: bs := by simp
    rw [hsplit] at hd
    exact not_declares_mark hprops (by simp [hcolon, hvs, has]) ⟨';', by simp, Or.inl rfl⟩ bs hd

/-! ### The scan -/

omit hprops

theorem declarations_cons {before : Option Char} {o : Nat} {c : Char} {cs : Text}
    (hstart : before.all (· == '\n') → ¬ Declares properties (c :: cs))
    (hnext : separates c → ¬ Declares properties cs) :
    declarations properties 0 before o (c :: cs) =
      declarations properties 0 (some c) (o + c.utf8Size) cs := by
  have hnone : declarationFrom? properties before ⟨o, c :: cs⟩ = none := by
    have hfirst : (if before.all (· == '\n') then declarationAt? properties ⟨o, c :: cs⟩
        else none) = none := by
      split_ifs with h
      · exact declarationAt?_eq_none (hstart h) o
      · rfl
    have hsecond : (if separates c then declarationAt? properties ⟨o + c.utf8Size, cs⟩ else none) =
        none := by
      split_ifs with h
      · exact declarationAt?_eq_none (hnext h) _
      · rfl
    simp only [declarationFrom?, hfirst, List.head?_cons, Option.any_some, Cursor.skip]
    exact hsecond
  simp only [declarations, hnone]

theorem exists_declarations_skip {rest : Text}
    (h : ∀ ws, ws <:+ us → ¬ Declares properties (ws ++ rest)) (before : Option Char) (o : Nat) :
    ∃ before', declarations properties 0 before o (us ++ rest) =
      declarations properties 0 before' (o + us.size) rest := by
  induction us generalizing before o with
  | nil => exact ⟨before, rfl⟩
  | cons c us ih =>
    obtain ⟨before', heq⟩ :=
      ih (fun ws hws => h ws (hws.trans (List.suffix_cons c us))) (some c) (o + c.utf8Size)
    refine ⟨before', ?_⟩
    have hstart : ¬ Declares properties (c :: (us ++ rest)) := h _ (List.suffix_refl _)
    have hnext : ¬ Declares properties (us ++ rest) := h us (List.suffix_cons c us)
    rw [List.cons_append, declarations_cons (fun _ => hstart) (fun _ => hnext), heq, Text.size_cons,
      Nat.add_assoc]

/-- Inside a line, the scan looks for declarations behind separators only. -/
theorem exists_declarations_pass (before : Option Char) {rest : Text} (hline : '\n' ∉ us)
    (hstart : before.all (· == '\n') → ¬ Declares properties (us ++ rest))
    (h : ∀ as c ws, us = as ++ c :: ws → separates c → ¬ Declares properties (ws ++ rest))
    (o : Nat) : ∃ before', declarations properties 0 before o (us ++ rest) =
      declarations properties 0 before' (o + us.size) rest := by
  induction us generalizing before o with
  | nil => exact ⟨before, rfl⟩
  | cons c us ih =>
    rw [List.mem_cons, not_or] at hline
    have hinside : (some c).all (· == '\n') → ¬ Declares properties (us ++ rest) := fun hall =>
      absurd (by simpa using hall) (Ne.symm hline.1)
    obtain ⟨before', heq⟩ := ih (some c) hline.2 hinside
      (fun as d ws hus => h (c :: as) d ws (by rw [hus]; rfl)) (o + c.utf8Size)
    refine ⟨before', ?_⟩
    rw [List.cons_append] at hstart ⊢
    rw [declarations_cons hstart (h [] c us rfl), heq, Text.size_cons, Nat.add_assoc]

theorem exists_declarations_busy (properties : List Text) (us rest : Text)
    (before : Option Char) (o : Nat) :
    ∃ before', declarations properties us.length before o (us ++ rest) =
      declarations properties 0 before' (o + us.size) rest := by
  induction us generalizing before o with
  | nil => exact ⟨before, rfl⟩
  | cons c us ih =>
    obtain ⟨before', heq⟩ := ih (some c) (o + c.utf8Size)
    refine ⟨before', ?_⟩
    rw [List.cons_append, List.length_cons, declarations]
    simp only [heq, Text.size_cons, Nat.add_assoc]

/-- Behind a separator, the scan finds what is declared there, and goes on behind it. -/
theorem exists_declarations_found {c : Char} (hc : separates c) {rest : Text}
    (hnone : ¬ Declares properties (c :: (us ++ rest))) {o : Nat} {f : Declaration}
    (hf : declarationAt? properties ⟨o + c.utf8Size, us ++ rest⟩ = some f)
    (hstop : f.stop.rest = rest) (before : Option Char) :
    ∃ before', declarations properties 0 before o (c :: (us ++ rest)) =
      f :: declarations properties 0 before' (o + c.utf8Size + us.size) rest := by
  obtain ⟨before', hbusy⟩ :=
    exists_declarations_busy properties us rest (some c) (o + c.utf8Size)
  refine ⟨before', ?_⟩
  have hstart : (if before.all (· == '\n') then
      declarationAt? properties ⟨o, c :: (us ++ rest)⟩ else none) = none := by
    split_ifs
    · exact declarationAt?_eq_none hnone o
    · rfl
  have hfrom : declarationFrom? properties before ⟨o, c :: (us ++ rest)⟩ = some f := by
    simp only [declarationFrom?, hstart, List.head?_cons, Option.any_some, Cursor.skip, hf]
    exact if_pos hc
  have hlength : (us ++ rest).length - f.stop.rest.length = us.length := by
    rw [hstop, List.length_append, Nat.add_sub_cancel]
  simp only [declarations, hfrom, hlength, hbusy]

end

/-! ### The parts of a declaration -/

/-- A text behind which a declaration can stand: one without a colon that ends with a brace or a
semicolon and blanks. -/
inductive Leads : Text → Prop
  | start {us : Text} {c : Char} : ':' ∉ us → c = ';' ∨ c = '\x7b' → Leads (us ++ [c])
  | blank {us : Text} {c : Char} : Leads us → isBlank c → Leads (us ++ [c])

namespace Leads

variable {us vs : Text}

theorem append (h : Leads us) (hv : ∀ c ∈ vs, isBlank c) : Leads (us ++ vs) := by
  induction vs generalizing us with
  | nil => rwa [List.append_nil]
  | cons c vs ih =>
    have := ih (h.blank (hv c (.head _))) fun d hd => hv d (List.mem_cons_of_mem _ hd)
    rwa [List.append_assoc] at this

theorem colon_not_mem (h : Leads us) : ':' ∉ us := by
  induction h with
  | start hus hc =>
    rw [List.mem_append, List.mem_singleton, not_or]
    refine ⟨hus, ?_⟩
    rintro rfl
    exact absurd hc (by decide)
  | blank _ hc ih =>
    rw [List.mem_append, List.mem_singleton, not_or]
    refine ⟨ih, ?_⟩
    rintro rfl
    exact absurd hc (by decide)

theorem exists_concat (h : Leads us) : ∃ vs s, us = vs ++ [s] ∧ separates s := by
  cases h with
  | start _ hc =>
    refine ⟨_, _, rfl, ?_⟩
    rcases hc with rfl | rfl <;> rfl
  | blank _ hc => exact ⟨_, _, rfl, separates_of_isBlank hc⟩

theorem suffix (h : Leads us) (hvs : vs <:+ us) (hne : vs ≠ []) :
    (∃ c ∈ vs, c = ';' ∨ c = '\x7b') ∨ ∃ c ∈ vs.head?, isBlank c := by
  induction h generalizing vs with
  | @start us c _ hc =>
    obtain rfl | ⟨ws, rfl, -⟩ := List.suffix_concat_iff.mp hvs
    · exact absurd rfl hne
    · exact Or.inl ⟨c, by simp, hc⟩
  | @blank us c _ hc ih =>
    obtain rfl | ⟨ws, rfl, hws⟩ := List.suffix_concat_iff.mp hvs
    · exact absurd rfl hne
    · cases ws with
      | nil => exact Or.inr ⟨c, rfl, hc⟩
      | cons d ws =>
        rcases ih hws (by simp) with ⟨e, he, hmark⟩ | hblank
        · exact Or.inl ⟨e, List.mem_append_left _ he, hmark⟩
        · exact Or.inr hblank

end Leads

namespace WrittenDeclaration

variable (d : WrittenDeclaration)

theorem name_apart : ∀ c ∈ d.name, ¬ separates c ∧ c ≠ ':' := by
  intro c hc
  rcases d.name_letters c hc with hletter | rfl
  · refine ⟨fun hsep => ?_, ?_⟩
    · simp only [separates, Bool.or_eq_true, beq_iff_eq] at hsep
      rcases hsep with (rfl | rfl) | hblank
      · exact absurd hletter (by decide)
      · exact absurd hletter (by decide)
      · rw [not_isAlpha_of_isBlank hblank] at hletter
        cases hletter
    · rintro rfl
      exact absurd hletter (by decide)
  · decide

theorem name_key : ∀ c ∈ d.name, ¬ DesignLint.isBlank c ∧ c ≠ ':' := fun c hc =>
  ⟨fun h => (d.name_apart c hc).1 (separates_of_isBlank h), (d.name_apart c hc).2⟩

theorem text_append (rest : Text) : d.text ++ rest =
    d.name ++ (d.beforeColon ++ ':' :: (d.pad ++ (d.value ++ (d.tail ++ rest)))) := by
  simp [text, front]

theorem beforeColon_blank : ∀ c ∈ d.beforeColon, DesignLint.isBlank c := fun c hc =>
  d.isBlank c (by simp [hc])

theorem behindValue_blank : ∀ c ∈ d.behindValue, DesignLint.isBlank c := fun c hc =>
  d.isBlank c (by simp [hc])

theorem beforeEnd_blank : ∀ c ∈ d.beforeEnd, DesignLint.isBlank c := fun c hc =>
  d.isBlank c (by simp [hc])

theorem name_ascii : ∀ c ∈ d.name, c.toNat < 128 := by
  intro c hc
  rcases d.name_letters c hc with h | rfl
  · have hn : c.val.toNat = c.toNat := rfl
    unfold Char.isAlpha Char.isUpper Char.isLower at h
    simp only [ge_iff_le, UInt32.le_iff_toNat_le, Bool.or_eq_true, Bool.and_eq_true,
      decide_eq_true_eq] at h
    have h1 : ('Z' : Char).val.toNat = 90 := rfl
    have h2 : ('z' : Char).val.toNat = 122 := rfl
    omega
  · decide

theorem dropPrefixFold_iff {q : Text} (hq : PropertyName q) :
    Text.dropPrefixFold q d.name = some [] ↔ Text.lower q = d.property := by
  rw [dropPrefixFold_of_isAscii hq.ascii d.name_ascii, property]

theorem watched_iff {properties : List Text} (hprops : ∀ q ∈ properties, PropertyName q) :
    d.watched properties ↔ ∃ q ∈ properties, Text.dropPrefixFold q d.name = some [] := by
  rw [watched, List.contains_iff_mem, List.mem_map]
  exact exists_congr fun q => and_congr_right fun hq => (d.dropPrefixFold_iff (hprops q hq)).symm

theorem value_ends : (∃ c ∈ d.value.head?, ¬ DesignLint.isBlank c) ∧
    ∃ c ∈ d.value.getLast?, ¬ DesignLint.isBlank c := by
  obtain ⟨-, -, -, hhead, hlast⟩ := Text.exists_trim d.value
  rw [d.trim_value] at hhead hlast
  have h1 := List.head?_eq_some_head d.value_ne_nil
  have h2 := List.getLast?_eq_some_getLast d.value_ne_nil
  exact ⟨⟨_, h1, hhead _ h1⟩, _, h2, hlast _ h2⟩

theorem value_isValueChar : ∀ c ∈ d.value, isValueChar c := by
  intro c hc
  have := d.value_plain c hc
  simp only [List.mem_cons, List.not_mem_nil, or_false, not_or] at this
  simp [isValueChar, this]

theorem value_apart : ∀ c ∈ d.pad ++ d.value, c ≠ '\n' ∧ (separates c → DesignLint.isBlank c) := by
  intro c hc
  rcases List.mem_append.mp hc with hc | hc
  · have hpad := d.isPad c hc
    simp only [Style.isPad, Bool.or_eq_true, beq_iff_eq] at hpad
    rcases hpad with rfl | rfl <;> decide
  · have hplain := d.value_plain c hc
    simp only [List.mem_cons, List.not_mem_nil, or_false, not_or] at hplain
    exact ⟨hplain.2.2.2.2.2, by simp [separates, hplain]⟩

theorem importance_char : ∀ c ∈ d.importance, ¬ DesignLint.isBlank c ∧ isValueChar c ∧ c ≠ ':' := by
  intro c hc
  have hmem := mem_lower_important d.importance_eq hc
  have hne : ∀ e, e.toLower ∉ "!important".toList → c ≠ e := by
    rintro e he rfl
    exact he hmem
  refine ⟨fun hb => ?_, ?_, hne ':' (by decide)⟩
  · have hall : ∀ e ∈ blankChars, e.toLower ∉ "!important".toList :=
      List.all_iff_forall_prop.mp (by decide +kernel)
    exact hall c (mem_blankChars hb) hmem
  · simp [isValueChar, hne ';' (by decide), hne '\x7b' (by decide), hne '\x7d' (by decide),
      hne '\n' (by decide)]

end WrittenDeclaration

/-- The last occurrence of a text that ends with `!important`, however it is spelled. -/
theorem beforeLast?_important (us : Text) :
    beforeLast? "!important".toList (us ++ "!important".toList) = some us := by
  induction us with
  | nil => decide +kernel
  | cons c us ih => rw [List.cons_append, beforeLast?, ih]

theorem mem_of_mem_takeWhile_append {p : Char → Bool} {us vs : Text}
    (h : (∃ c ∈ us, ¬ p c) ∨ ∀ c ∈ vs.head?, ¬ p c) {c : Char}
    (hc : c ∈ (us ++ vs).takeWhile p) : c ∈ us := by
  induction us with
  | nil =>
    rcases h with ⟨d, hd, -⟩ | h
    · exact absurd hd List.not_mem_nil
    · cases vs with
      | nil => exact hc
      | cons d vs =>
        rw [List.nil_append, List.takeWhile_cons_of_neg (h d rfl)] at hc
        exact hc
  | cons d us ih =>
    rw [List.cons_append, List.takeWhile_cons] at hc
    split_ifs at hc with hd
    · rcases List.mem_cons.mp hc with rfl | hc
      · exact .head _
      · refine List.mem_cons_of_mem _ (ih ?_ hc)
        rcases h with ⟨e, he, hnot⟩ | h
        · rcases List.mem_cons.mp he with rfl | he
          · exact absurd hd hnot
          · exact Or.inl ⟨e, he, hnot⟩
        · exact Or.inr h
    · exact absurd hc List.not_mem_nil

theorem trimEnd_blanks {us : Text} (h : ∀ c ∈ us, isBlank c) : Text.trimEnd us = [] := by
  rw [Text.trimEnd, List.dropWhile_eq_nil_iff.mpr fun c hc => h c (List.mem_reverse.mp hc)]
  rfl

namespace WrittenDeclaration

variable (d : WrittenDeclaration)

theorem trimEnd_value {us : Text} (h : ∀ c ∈ us, DesignLint.isBlank c) :
    Text.trimEnd (d.value ++ us) = d.value := by
  rw [Text.trimEnd_append d.value_ends.2, trimEnd_blanks h, List.append_nil]

theorem withoutImportance_value : withoutImportance d.value = d.value := by
  unfold withoutImportance
  split
  · next lead hl =>
    obtain ⟨es, hes, rest, rfl⟩ := beforeLast?_eq_some hl
    obtain ⟨c, hc, heq⟩ : ∃ c ∈ d.value, c.toLower = '!' := by
      refine List.mem_map.mp (?_ : '!' ∈ Text.lower d.value)
      rw [hes]
      simp
    rw [eq_of_toLower_eq heq] at hc
    exact absurd (d.value_plain _ hc) (by decide)
  · rfl

theorem withoutImportance_important (h : Text.lower d.importance = "!important".toList) :
    withoutImportance (d.value ++ (d.behindValue ++ d.importance)) = d.value := by
  have hlower : Text.lower (d.value ++ (d.behindValue ++ d.importance)) =
      Text.lower (d.value ++ d.behindValue) ++ "!important".toList := by
    rw [← h]
    simp [Text.lower]
  have htake : (d.value ++ (d.behindValue ++ d.importance)).take
      (Text.lower (d.value ++ d.behindValue)).length = d.value ++ d.behindValue := by
    rw [← List.append_assoc, Text.lower, List.length_map, List.take_left]
  rw [withoutImportance, hlower, beforeLast?_important]
  simp only [htake]
  exact d.trimEnd_value d.behindValue_blank

theorem colon_not_mem : ':' ∉ d.behindValue ++ (d.importance ++ d.beforeEnd) := by
  intro h
  simp only [List.mem_append] at h
  rcases h with h | h | h
  · exact absurd (d.behindValue_blank _ h) (by decide)
  · exact (d.importance_char _ h).2.2 rfl
  · exact absurd (d.beforeEnd_blank _ h) (by decide)

theorem leads_tail : Leads d.tail := by
  have h : Leads (d.behindValue ++ (d.importance ++ d.beforeEnd) ++ [';']) :=
    .start d.colon_not_mem (Or.inl rfl)
  simpa [tail] using h

/-- What is declared is the value with some text behind it, which does not count; behind that, the
next declaration can stand. -/
structure Declared (extra behind : Text) : Prop where
  tail : d.tail = extra ++ behind
  leads : Leads behind
  withoutImportance : withoutImportance (d.value ++ extra) = d.value
  trimEnd : ∀ rest : Text,
    Text.trimEnd ((d.value ++ (d.tail ++ rest)).takeWhile isValueChar) = d.value ++ extra

variable {d}

theorem Declared.of_blanks {us ws : Text} (hus : ∀ c ∈ us, DesignLint.isBlank c)
    (htail : d.tail = us ++ ws)
    (hstop : (∃ c ∈ us, ¬ isValueChar c) ∨ ∃ c ∈ ws.head?, ¬ isValueChar c) :
    d.Declared [] d.tail where
  tail := rfl
  leads := d.leads_tail
  withoutImportance := by rw [List.append_nil, d.withoutImportance_value]
  trimEnd rest := by
    have hstop' : (∃ c ∈ us, ¬ isValueChar c) ∨ ∀ c ∈ (ws ++ rest).head?, ¬ isValueChar c := by
      refine hstop.imp_right ?_
      rintro ⟨c, hc, hnot⟩ e he
      rw [List.head?_append, hc] at he
      obtain rfl : c = e := by simpa using he
      exact hnot
    rw [htail, List.append_assoc, List.takeWhile_append_of_pos d.value_isValueChar, List.append_nil]
    exact d.trimEnd_value fun c hc => hus c (mem_of_mem_takeWhile_append hstop' hc)

theorem Declared.of_important (h : Text.lower d.importance = "!important".toList)
    (hline : ∀ c ∈ d.behindValue, isValueChar c) :
    d.Declared (d.behindValue ++ d.importance) (d.beforeEnd ++ [';']) where
  tail := by simp [WrittenDeclaration.tail]
  leads := .start (colon_not_mem_blanks d.beforeEnd_blank) (Or.inl rfl)
  withoutImportance := d.withoutImportance_important h
  trimEnd rest := by
    have hne : d.importance ≠ [] := by
      intro hnil
      rw [hnil] at h
      exact absurd h (by decide)
    have hlast := List.getLast?_eq_some_getLast hne
    have hend : ∃ c ∈ (d.value ++ (d.behindValue ++ d.importance)).getLast?,
        ¬ DesignLint.isBlank c := by
      refine ⟨_, ?_, (d.importance_char _ (List.mem_of_mem_getLast? hlast)).1⟩
      rw [List.getLast?_append, List.getLast?_append, hlast]
      rfl
    have hall : ∀ c ∈ d.behindValue ++ d.importance, isValueChar c := by
      intro c hc
      exact (List.mem_append.mp hc).elim (hline c) fun hc => (d.importance_char c hc).2.1
    have hsplit : d.tail ++ rest =
        (d.behindValue ++ d.importance) ++ (d.beforeEnd ++ ';' :: rest) := by
      simp [WrittenDeclaration.tail]
    have hblanks : ∀ c ∈ (d.beforeEnd ++ ';' :: rest).takeWhile isValueChar,
        DesignLint.isBlank c := fun c hc =>
      d.beforeEnd_blank c (mem_of_mem_takeWhile_append (Or.inr (by simp [isValueChar])) hc)
    rw [hsplit, List.takeWhile_append_of_pos d.value_isValueChar, List.takeWhile_append_of_pos hall,
      ← List.append_assoc, Text.trimEnd_append hend, trimEnd_blanks hblanks, List.append_nil]

variable (d)

/-- What is declared is the value, or the value with its importance. -/
theorem exists_declared : ∃ extra behind : Text, d.Declared extra behind := by
  by_cases hline : ∀ c ∈ d.behindValue, isValueChar c
  · rcases d.importance_eq with hnone | himportant
    · have htail : d.tail = (d.behindValue ++ d.beforeEnd) ++ [';'] := by simp [tail, hnone]
      refine ⟨[], d.tail, .of_blanks (fun c hc => ?_) htail (Or.inr ⟨';', rfl, by decide⟩)⟩
      exact (List.mem_append.mp hc).elim (d.behindValue_blank c) (d.beforeEnd_blank c)
    · exact ⟨_, _, .of_important himportant hline⟩
  · push Not at hline
    exact ⟨[], d.tail, .of_blanks d.behindValue_blank rfl (Or.inl (by simpa using hline))⟩

end WrittenDeclaration

/-! ### One declaration in a scan -/

section

variable {properties : List Text} (hprops : ∀ q ∈ properties, PropertyName q)
  {d : WrittenDeclaration}

theorem WrittenDeclaration.Declared.valueFrom? {extra behind : Text} (h : d.Declared extra behind)
    (rest : Text) (o : Nat) :
    valueFrom? d.name ⟨o + Text.size (d.name ++ (d.beforeColon ++ [':'])),
        d.pad ++ (d.value ++ (d.tail ++ rest))⟩ =
      some ⟨d.name, ⟨o + d.front.size, d.value ++ (d.tail ++ rest)⟩,
        ⟨o + d.front.size + Text.size (d.value ++ extra), behind ++ rest⟩⟩ := by
  have hbehind : d.value ++ (d.tail ++ rest) = (d.value ++ extra) ++ (behind ++ rest) := by
    simp [h.tail]
  have hhead : ∀ c ∈ ((d.value ++ extra) ++ (behind ++ rest)).head?, ¬ Style.isPad c := by
    obtain ⟨⟨e, he, hnot⟩, -⟩ := d.value_ends
    intro c hc hpad
    rw [List.append_assoc, List.head?_append, he] at hc
    obtain rfl : e = c := by simpa using hc
    refine hnot ?_
    simp only [Style.isPad, Bool.or_eq_true, beq_iff_eq] at hpad
    rcases hpad with rfl | rfl <;> rfl
  have hdeclared := h.trimEnd rest
  rw [hbehind] at hdeclared ⊢
  have hsize : o + Text.size (d.name ++ (d.beforeColon ++ [':'])) + d.pad.size =
      o + d.front.size := by
    simp only [front, Text.size_append, Text.size_cons, Text.size_nil]
    omega
  rw [valueFrom?_eq d.isPad hhead hdeclared, if_neg (by simp [d.value_ne_nil]), hsize]

include hprops

theorem WrittenDeclaration.declarationAt? (hd : d.watched properties) {extra behind : Text}
    (h : d.Declared extra behind) (rest : Text) (o : Nat) :
    declarationAt? properties ⟨o, d.text ++ rest⟩ =
      some ⟨d.name, ⟨o + d.front.size, d.value ++ (d.tail ++ rest)⟩,
        ⟨o + d.front.size + Text.size (d.value ++ extra), behind ++ rest⟩⟩ := by
  have hvalue := h.valueFrom? rest o
  rw [d.text_append]
  cases hfound : Style.declarationAt? properties
      ⟨o, d.name ++ (d.beforeColon ++ ':' :: (d.pad ++ (d.value ++ (d.tail ++ rest))))⟩ with
  | none =>
    obtain ⟨q, hq, hdrop⟩ := (d.watched_iff hprops).mp hd
    have hnone := List.findSome?_eq_none_iff.mp hfound q hq
    rw [declarationOf?_append hdrop d.beforeColon_blank, hvalue] at hnone
    cases hnone
  | some f =>
    obtain ⟨q, hq, hf⟩ := List.exists_of_findSome?_eq_some hfound
    -- another property can come first, but it has the same name and colon in the text
    obtain ⟨key, blanks, rest', heq, hkey, hblanks, hfrom⟩ := exists_of_declarationOf? hf
    obtain ⟨rfl, rfl, rfl⟩ := eq_of_key d.name_key d.beforeColon_blank
      ((hprops q hq).spelled hkey) hblanks heq.symm
    exact hfrom.symm.trans hvalue

theorem WrittenDeclaration.not_declares_name (hd : ¬ d.watched properties) (rest : Text) :
    ¬ Declares properties (d.name ++ (d.beforeColon ++ ':' :: rest)) := by
  intro h
  have hname := dropPrefixFold_of_declares hprops d.name_key d.beforeColon_blank h
  exact hd ((d.watched_iff hprops).mpr hname)

/-- Nothing is declared in a value behind a separator, if it is readable. -/
theorem WrittenDeclaration.not_declares_value (hd : ¬ d.watched properties)
    (hread : d.Readable properties) {as ws : Text} {c : Char}
    (hvalue : d.pad ++ d.value = as ++ c :: ws) (hc : separates c) (rest : Text) :
    ¬ Declares properties (ws ++ (d.tail ++ rest)) := by
  have htail : d.tail ++ rest = d.behindValue ++ (d.importance ++ d.beforeEnd) ++ ';' :: rest := by
    simp [tail]
  have hblank := (d.value_apart c (by simp [hvalue])).2 hc
  have hnot := hread (by simpa using hd) (as ++ [c]) ws (by simp [hvalue]) ⟨c, by simp, hblank⟩
  rw [htail]
  exact not_declares_semicolon hprops hnot d.colon_not_mem rest

theorem not_declares_lead {lead : Text} (hlead : Leads lead) (d : WrittenDeclaration) {us : Text}
    (hus : us <:+ lead) (hne : us ≠ []) (rest : Text) :
    ¬ Declares properties (us ++ (d.name ++ (d.beforeColon ++ ':' :: rest))) := by
  rcases hlead.suffix hus hne with ⟨c, hc, hmark⟩ | hblank
  · have hcolon : ':' ∉ us ++ (d.name ++ d.beforeColon) := by
      simp only [List.mem_append, not_or]
      exact ⟨fun h => hlead.colon_not_mem (hus.subset h), fun h => (d.name_key _ h).2 rfl,
        colon_not_mem_blanks d.beforeColon_blank⟩
    have hsplit : us ++ (d.name ++ (d.beforeColon ++ ':' :: rest)) =
        (us ++ (d.name ++ d.beforeColon)) ++ ':' :: rest := by simp
    rw [hsplit]
    exact not_declares_mark hprops hcolon ⟨c, List.mem_append_left _ hc, hmark⟩ rest
  · exact not_declares_blank hprops hblank _

theorem exists_declarations_name {lead : Text} (hlead : Leads lead) (d : WrittenDeclaration)
    (rest : Text) (before : Option Char) (o : Nat) :
    ∃ (before' : Option Char) (s : Char) (us : Text), lead = us ++ [s] ∧
      separates s ∧ ¬ Declares properties (s :: (d.name ++ (d.beforeColon ++ ':' :: rest))) ∧
      declarations properties 0 before o (lead ++ (d.name ++ (d.beforeColon ++ ':' :: rest))) =
        declarations properties 0 before' (o + us.size)
          (s :: (d.name ++ (d.beforeColon ++ ':' :: rest))) := by
  obtain ⟨us, s, rfl, hs⟩ := hlead.exists_concat
  have hnone : ∀ ws, ws <:+ us →
      ¬ Declares properties (ws ++ s :: (d.name ++ (d.beforeColon ++ ':' :: rest))) := by
    intro ws hws
    have hsuffix : ws ++ [s] <:+ us ++ [s] := List.suffix_concat_iff.mpr (Or.inr ⟨ws, rfl, hws⟩)
    have := not_declares_lead hprops hlead d hsuffix (by simp) rest
    rwa [List.append_assoc] at this
  obtain ⟨before', heq⟩ := exists_declarations_skip hnone before o
  refine ⟨before', s, us, rfl, hs, hnone [] List.nil_suffix, ?_⟩
  rw [List.append_assoc, List.singleton_append, heq]

/-- **A declaration whose property is watched is found**, and the scan goes on behind its value. -/
theorem exists_declarations_watched {lead : Text} (hlead : Leads lead) (hd : d.watched properties)
    {extra behind : Text} (h : d.Declared extra behind) (rest : Text) (before : Option Char)
    (o : Nat) :
    ∃ before', declarations properties 0 before o (lead ++ (d.text ++ rest)) =
      ⟨d.name, ⟨o + lead.size + d.front.size, d.value ++ (d.tail ++ rest)⟩,
        ⟨o + lead.size + d.front.size + Text.size (d.value ++ extra), behind ++ rest⟩⟩ ::
      declarations properties 0 before'
        (o + lead.size + d.front.size + Text.size (d.value ++ extra)) (behind ++ rest) := by
  have hsplit : d.text ++ rest = (d.front ++ (d.value ++ extra)) ++ (behind ++ rest) := by
    simp [WrittenDeclaration.text, h.tail]
  obtain ⟨before', s, us, rfl, hs, hnone, hskip⟩ := exists_declarations_name hprops hlead d
    (d.pad ++ (d.value ++ (d.tail ++ rest))) before o
  rw [← d.text_append] at hnone hskip
  have hoffset : o + us.size + s.utf8Size = o + Text.size (us ++ [s]) := by simp [Nat.add_assoc]
  have hfound := d.declarationAt? hprops hd h rest (o + us.size + s.utf8Size)
  rw [hsplit] at hnone hskip hfound
  obtain ⟨before'', heq⟩ := exists_declarations_found hs hnone hfound rfl before'
  refine ⟨before'', ?_⟩
  rw [hsplit, hskip, heq, hoffset, Text.size_append d.front, ← Nat.add_assoc]

theorem exists_declarations_colon (hd : ¬ d.watched properties) (rest : Text)
    (before : Option Char) (o : Nat) :
    declarations properties 0 before o (d.name ++ (d.beforeColon ++ ':' :: rest)) =
      declarations properties 0 (some ':') (o + Text.size (d.name ++ (d.beforeColon ++ [':'])))
        rest := by
  have hsep : ∀ c ∈ d.name, ¬ separates c := fun c hc => (d.name_apart c hc).1
  have hblanks : ∀ ws, ws <:+ d.beforeColon → ¬ Declares properties (ws ++ ':' :: rest) :=
    fun ws hws => not_declares_blanks hprops (fun c hc => d.beforeColon_blank c (hws.subset hc)) _
  -- a watched property may be the rear of the name, but no separator stands in front of it
  obtain ⟨before₁, hname⟩ := exists_declarations_pass before
    (fun hmem => hsep _ hmem (by decide)) (fun _ => d.not_declares_name hprops hd rest)
    (fun as c ws hus hc => absurd hc (hsep c (by simp [hus]))) o
  obtain ⟨before₂, hcolon⟩ := exists_declarations_skip hblanks before₁ (o + d.name.size)
  have hnil := hblanks [] List.nil_suffix
  rw [hname, hcolon, declarations_cons (fun _ => hnil) (fun h => absurd h (by decide))]
  simp [Nat.add_assoc]

theorem exists_declarations_unwatched {lead : Text} (hlead : Leads lead)
    (hd : ¬ d.watched properties) (hread : d.Readable properties) (rest : Text)
    (before : Option Char) (o : Nat) :
    ∃ before', declarations properties 0 before o (lead ++ (d.text ++ rest)) =
      declarations properties 0 before' (o + lead.size + Text.size (d.front ++ d.value))
        (d.tail ++ rest) := by
  obtain ⟨before', s, us, rfl, hs, hnone, hskip⟩ := exists_declarations_name hprops hlead d
    (d.pad ++ (d.value ++ (d.tail ++ rest))) before o
  have hname := d.not_declares_name hprops hd (d.pad ++ (d.value ++ (d.tail ++ rest)))
  have hcolon := exists_declarations_colon hprops hd (d.pad ++ (d.value ++ (d.tail ++ rest)))
    (some s) (o + us.size + s.utf8Size)
  -- a value is on one line, so that only behind its blanks something could be found
  obtain ⟨before'', hpass⟩ := exists_declarations_pass (some ':')
    (fun hmem => (d.value_apart _ hmem).1 rfl) (fun hall => absurd hall (by decide))
    (fun as c ws heq hc => d.not_declares_value hprops hd hread heq hc rest)
    (o + us.size + s.utf8Size + Text.size (d.name ++ (d.beforeColon ++ [':'])))
  rw [List.append_assoc] at hpass
  refine ⟨before'', ?_⟩
  rw [d.text_append, hskip, declarations_cons (fun _ => hnone) (fun _ => hname), hcolon, hpass]
  congr 1
  simp only [WrittenDeclaration.front, Text.size_append, Text.size_cons, Text.size_nil]
  omega

end

end DesignLint.Style
