import DesignLint.Proofs.Markup.Enclosure
import DesignLint.Proofs.Text.Bytes

/-!
# Quotes and braces, byte by byte

`Bytewise.stringEnd`, `Bytewise.templateEnd` and `Bytewise.expressionEnd` look at single bytes and
go from offset to offset: behind a backslash they skip two bytes, which may lead into the middle of
a character, and template literals and expressions call one another where they hold one another. To
look for the end of a comment they cut the text. They have no result if a cut is not at a boundary,
and none if they would have to go on without having come forward; a reader that comes to the end of
the text without finding what it looks for has the result `none`.

They find what the scanners on characters find (`stringEnd_eq`, `templateEnd_eq`,
`expressionEnd_eq`), so no cut is ever wrong and they always come forward. The calls become the
stack of `scan`: what `templateEnd` and `expressionEnd` find decides how `scan` goes on, whatever
else is open (`Agrees`).
-/

namespace DesignLint.Bytewise

open Markup (Enclosure backtick scan closeQuote)

/-- The offset behind the quote that closes a string, from an offset inside it. -/
def stringEnd (src : Text) (q : Char) (i : Nat) : Option Nat :=
  match h : src.at? i with
  | none => none
  | some c =>
    if c = '\\' then stringEnd src q (i + 2)
    else if c = '\n' then none
    else if c = q then some (i + 1)
    else stringEnd src q (i + 1)
termination_by src.size - i
decreasing_by
  all_goals
    have := Text.lt_size_of_at? h
    omega

mutual

/-- The offset behind the backtick that closes a template literal, from an offset inside it. -/
def templateEnd (src : Text) (i : Nat) : Option (Option Nat) :=
  match h : src.at? i with
  | none => some none
  | some c =>
    if c = '\\' then templateEnd src (i + 2)
    else if c = backtick then some (some (i + 1))
    else if c = '$' ∧ src.at? (i + 1) = some '\x7b' then do
      match ← expressionEnd src 0 (i + 1) with
      | some stop => if _ : i < stop then templateEnd src stop else none
      | none => some none
    else templateEnd src (i + 1)
termination_by src.size - i
decreasing_by
  all_goals
    have := Text.lt_size_of_at? h
    omega

/-- The offset behind the brace that closes the last of some open braces. -/
def expressionEnd (src : Text) (depth i : Nat) : Option (Option Nat) :=
  match h : src.at? i with
  | none => some none
  | some c =>
    if c = '\x7b' then expressionEnd src (depth + 1) (i + 1)
    else if c = '\x7d' then
      if depth = 0 then some none
      else if depth = 1 then some (some (i + 1))
      else expressionEnd src (depth - 1) (i + 1)
    else if c = '"' ∨ c = '\'' then
      let stop := (stringEnd src c (i + 1)).getD (i + 1)
      if _ : i < stop then expressionEnd src depth stop else none
    else if c = backtick then do
      match ← templateEnd src (i + 1) with
      | some stop => if _ : i < stop then expressionEnd src depth stop else none
      | none => some none
    else if c = '/' ∧ src.at? (i + 1) = some '/' then do
      let rest ← src.from? i
      let stop := ((Text.find? ['\n'] rest).map (i + ·)).getD src.size
      if _ : i < stop then expressionEnd src depth stop else none
    else if c = '/' ∧ src.at? (i + 1) = some '*' then do
      let rest ← src.from? (i + 2)
      match Text.find? ['*', '/'] rest with
      | some n => expressionEnd src depth (i + 2 + n + 2)
      | none => some none
    else expressionEnd src depth (i + 1)
termination_by src.size - i
decreasing_by
  all_goals
    have := Text.lt_size_of_at? h
    omega

end

/-! ### Strings -/

section

variable {src rest : Text} {c d q : Char} {o : Nat} {k : Cursor}

theorem ne_of_le {x : Char} (hx : 128 ≤ x.toNat) (hc : c.toNat < 128) : x ≠ c := by
  rintro rfl
  omega

theorem beq_of_le {x : Char} (hx : 128 ≤ x.toNat) (hc : c.toNat < 128) : (x == c) = false := by
  rw [beq_eq_false_iff_ne]
  exact ne_of_le hx hc

theorem in_next (hk : Cursor.In src ⟨o, c :: rest⟩) : Cursor.In src ⟨o + c.utf8Size, rest⟩ :=
  hk.passes (Cursor.passes_one o c rest)

theorem passesOver_escape {α : Type} {f : Nat → α} (hf : src.PassesOver f)
    (hk : Cursor.In src ⟨o, '\\' :: d :: rest⟩) : f (o + 2) = f (o + 1 + d.utf8Size) := by
  have hnext : Cursor.In src ⟨o + 1, d :: rest⟩ := in_next hk
  exact hf.eq hnext rfl d.utf8Size_pos (Or.inl Nat.one_pos)

theorem at?_behind_last (hk : Cursor.In src ⟨o, [c]⟩) (hc : c.toNat < 128) (n : Nat) :
    src.at? (o + 1 + n) = none := by
  have hnext := in_next hk
  rw [Text.utf8Size_of_lt hc] at hnext
  rw [Text.at?_add hnext n]
  rfl

theorem stringEnd_of_at? {x : Char} {i : Nat} (hx : src.at? i = some x) :
    stringEnd src q i =
      if x = '\\' then stringEnd src q (i + 2)
      else if x = '\n' then none
      else if x = q then some (i + 1)
      else stringEnd src q (i + 1) := by
  rw [stringEnd]
  split
  · next h => simp [h] at hx
  · next y hy =>
    obtain rfl : x = y := Option.some.inj (hx.symm.trans hy)
    rfl

theorem stringEnd_of_none {i : Nat} (h : src.at? i = none) : stringEnd src q i = none := by
  rw [stringEnd]
  split
  · rfl
  · next x hx => simp [h] at hx

theorem passesOver_stringEnd (hq : q.toNat < 128) : src.PassesOver (stringEnd src q) := by
  intro i x hx hge
  rw [stringEnd_of_at? hx, if_neg (ne_of_le hge (by decide)), if_neg (ne_of_le hge (by decide)),
    if_neg (ne_of_le hge hq)]

/-- **The end of a string is found byte by byte.** -/
theorem stringEnd_eq (hq : q.toNat < 128) (hk : Cursor.In src ⟨o, rest⟩) :
    stringEnd src q o = (closeQuote q o rest).map Cursor.offset := by
  fun_induction closeQuote q o rest with
  | case1 o =>
    rw [stringEnd_of_none (Text.at?_eq_none hk rfl)]
    rfl
  | case2 o c hc =>
    rw [beq_iff_eq] at hc
    subst hc
    have hx : src.at? o = some '\\' := Text.at?_eq_some hk rfl (by decide)
    rw [stringEnd_of_at? hx, if_pos rfl, stringEnd_of_none (at?_behind_last hk (by decide) 1)]
    rfl
  | case3 o c hc d rest ih =>
    rw [beq_iff_eq] at hc
    subst hc
    have hx : src.at? o = some '\\' := Text.at?_eq_some hk rfl (by decide)
    rw [stringEnd_of_at? hx, if_pos rfl, passesOver_escape (passesOver_stringEnd hq) hk]
    exact ih (in_next (in_next hk))
  | case4 o c rest hesc hc =>
    rw [beq_iff_eq] at hc
    subst hc
    have hx : src.at? o = some '\n' := Text.at?_eq_some hk rfl (by decide)
    rw [stringEnd_of_at? hx]
    rfl
  | case5 o c rest hesc hline hc =>
    rw [beq_iff_eq] at hesc hline hc
    subst hc
    have hx : src.at? o = some c := Text.at?_eq_some hk rfl hq
    rw [stringEnd_of_at? hx, if_neg hesc, if_neg hline, if_pos rfl, Text.utf8Size_of_lt hq]
    rfl
  | case6 o c rest hesc hline hc ih =>
    rw [beq_iff_eq] at hesc hline hc
    rw [← ih (in_next hk)]
    by_cases hascii : c.toNat < 128
    · have hx : src.at? o = some c := Text.at?_eq_some hk rfl hascii
      rw [stringEnd_of_at? hx, if_neg hesc, if_neg hline, if_neg hc, Text.utf8Size_of_lt hascii]
    · exact (passesOver_stringEnd hq).eq hk rfl (Nat.zero_le _) (Or.inr (Nat.le_of_not_lt hascii))

end

/-! ### Template literals and expressions -/

/-- What a reader finds from a point on, and how `scan` goes on from there, whatever else is open:
the reader comes to a point behind `k` and `scan` goes on from this point, or neither finds an
end. -/
def Agrees (k : Cursor) (found : Option (Option Nat)) (scanned : List Enclosure → Option Cursor)
    (resume : List Enclosure → Cursor → Option Cursor) : Prop :=
  ∃ m : Option Cursor, found = some (m.map Cursor.offset) ∧
    (∀ l ∈ m, ∃ us, us ≠ [] ∧ k.Passes us l) ∧ ∀ below, scanned below = m.bind (resume below)

namespace Agrees

variable {k l : Cursor} {us : Text} {found : Option (Option Nat)}
  {scanned : List Enclosure → Option Cursor}
  {resume : List Enclosure → Cursor → Option Cursor}

theorem lost (hs : ∀ below, scanned below = none) : Agrees k (some none) scanned resume :=
  ⟨none, rfl, by simp, hs⟩

theorem here (hp : k.Passes us l) (hu : us ≠ []) (hs : ∀ below, scanned below = resume below l) :
    Agrees k (some (some l.offset)) scanned resume := by
  refine ⟨some l, rfl, ?_, hs⟩
  rintro l' hl
  cases hl
  exact ⟨us, hu, hp⟩

/-- Something is looked for first, and if it is found, the readers agree behind it. -/
theorem after {found' : Cursor → Option (Option Nat)}
    {scanned' : Cursor → List Enclosure → Option Cursor} (m : Option Cursor)
    (hm : ∀ l ∈ m, ∃ us, k.Passes us l ∧ Agrees l (found' l) (scanned' l) resume)
    (hf : found = m.elim (some none) found')
    (hs : ∀ below, scanned below = m.bind (scanned' · below)) :
    Agrees k found scanned resume := by
  cases m with
  | none =>
    rw [hf]
    exact .lost hs
  | some l =>
    obtain ⟨us, hp, m', hm', hpass, hscan⟩ := hm l rfl
    refine ⟨m', hf.trans hm', fun l' hl => ?_, fun below => (hs below).trans (hscan below)⟩
    obtain ⟨vs, hv, hvs⟩ := hpass l' hl
    exact ⟨us ++ vs, by simp [hv], hp.trans hvs⟩

end Agrees

/-- Where `scan` goes on behind the last brace that has been closed. -/
def resumeCode (base : List Enclosure) (l : Cursor) : Option Cursor :=
  if base = [.outside] then some l else scan base l.offset l.rest

/-- `templateEnd` and `scan` agree at a point. -/
def TemplateAgrees (src : Text) (k : Cursor) : Prop :=
  Agrees k (templateEnd src k.offset) (fun below => scan (.template :: below) k.offset k.rest)
    fun below l => scan below l.offset l.rest

/-- `expressionEnd` and `scan` agree at a point inside some braces. -/
def CodeAgrees (src : Text) (depth : Nat) (k : Cursor) : Prop :=
  Agrees k (expressionEnd src (depth + 1) k.offset)
    (fun base => scan (.brace :: (List.replicate depth .brace ++ base)) k.offset k.rest) resumeCode

section

variable {src rest : Text} {c : Char} {o depth : Nat}

/-- Goes on at an offset behind another one. -/
def onward (i : Nat) (f : Nat → Option (Option Nat)) (stop : Nat) : Option (Option Nat) :=
  if _ : i < stop then f stop else none

theorem onward_of_lt {i stop : Nat} {f : Nat → Option (Option Nat)} (h : i < stop) :
    onward i f stop = f stop := dif_pos h

theorem match_eq_elim (stop? : Option Nat) (f : Nat → Option (Option Nat)) :
    (match stop? with | some stop => f stop | none => some none) = stop?.elim (some none) f := by
  cases stop? <;> rfl

theorem templateEnd_of_at? {x : Char} {i : Nat} (hx : src.at? i = some x) :
    templateEnd src i =
      if x = '\\' then templateEnd src (i + 2)
      else if x = backtick then some (some (i + 1))
      else if x = '$' ∧ src.at? (i + 1) = some '\x7b' then
        (expressionEnd src 0 (i + 1)).bind fun stop? =>
          stop?.elim (some none) (onward i (templateEnd src))
      else templateEnd src (i + 1) := by
  rw [templateEnd]
  split
  · next h => simp [h] at hx
  · next y hy =>
    obtain rfl : x = y := Option.some.inj (hx.symm.trans hy)
    simp only [Option.bind_eq_bind, match_eq_elim]
    rfl

theorem expressionEnd_of_at? {x : Char} {i : Nat} (hx : src.at? i = some x) :
    expressionEnd src depth i =
      if x = '\x7b' then expressionEnd src (depth + 1) (i + 1)
      else if x = '\x7d' then
        if depth = 0 then some none
        else if depth = 1 then some (some (i + 1))
        else expressionEnd src (depth - 1) (i + 1)
      else if x = '"' ∨ x = '\'' then
        onward i (expressionEnd src depth) ((stringEnd src x (i + 1)).getD (i + 1))
      else if x = backtick then
        (templateEnd src (i + 1)).bind fun stop? =>
          stop?.elim (some none) (onward i (expressionEnd src depth))
      else if x = '/' ∧ src.at? (i + 1) = some '/' then
        (src.from? i).bind fun rest =>
          onward i (expressionEnd src depth)
            (((Text.find? ['\n'] rest).map (i + ·)).getD src.size)
      else if x = '/' ∧ src.at? (i + 1) = some '*' then
        (src.from? (i + 2)).bind fun rest =>
          (Text.find? ['*', '/'] rest).elim (some none) fun n =>
            expressionEnd src depth (i + 2 + n + 2)
      else expressionEnd src depth (i + 1) := by
  rw [expressionEnd]
  split
  · next h => simp [h] at hx
  · next y hy =>
    obtain rfl : x = y := Option.some.inj (hx.symm.trans hy)
    simp only [Option.bind_eq_bind, match_eq_elim]
    rfl

theorem passesOver_templateEnd (src : Text) : src.PassesOver (templateEnd src) := by
  intro i x hx hge
  rw [templateEnd_of_at? hx, if_neg (ne_of_le hge (by decide)), if_neg (ne_of_le hge (by decide)),
    if_neg fun h => ne_of_le hge (by decide) h.1]

theorem passesOver_expressionEnd (src : Text) (depth : Nat) :
    src.PassesOver (expressionEnd src depth) := by
  intro i x hx hge
  have hne : ∀ c : Char, c.toNat < 128 → x ≠ c := fun _ => ne_of_le hge
  have hquote : ¬ (x = '"' ∨ x = '\'') := by
    rintro (h | h)
    · exact hne _ (by decide) h
    · exact hne _ (by decide) h
  have hslash : ∀ d, ¬ (x = '/' ∧ src.at? (i + 1) = some d) := fun _ h => hne _ (by decide) h.1
  rw [expressionEnd_of_at? hx, if_neg (hne _ (by decide)), if_neg (hne _ (by decide)),
    if_neg hquote, if_neg (hne _ (by decide)), if_neg (hslash _), if_neg (hslash _)]

theorem templateEnd_of_none {i : Nat} (h : src.at? i = none) : templateEnd src i = some none := by
  rw [templateEnd]
  split
  · rfl
  · next x hx => simp [h] at hx

theorem expressionEnd_of_none {i : Nat} (h : src.at? i = none) :
    expressionEnd src depth i = some none := by
  rw [expressionEnd]
  split
  · rfl
  · next x hx => simp [h] at hx

/-! ### The ends of comments -/

theorem lineEnd_offset {k : Cursor} (hk : k.In src) :
    ((Text.find? ['\n'] k.rest).map (k.offset + ·)).getD src.size =
      (Markup.lineEnd k).offset := by
  obtain ⟨us, hp, hno, hhead⟩ := Markup.exists_lineEnd k
  rw [← Text.find_map_offset]
  cases hrest : (Markup.lineEnd k).rest with
  | nil =>
    have hnone : k.find ['\n'] = none := by
      rw [Option.eq_none_iff_forall_ne_some]
      intro l hl
      obtain ⟨vs, hvs, ⟨ds, hds⟩, -⟩ := Cursor.find_eq_some.mp hl
      have hmem : '\n' ∈ k.rest := by rw [hvs.1, ← hds]; simp
      rw [hp.1, hrest, List.append_nil] at hmem
      exact hno hmem
    rw [hnone, Option.map_none, Option.getD_none, hk.size_eq, hp.1, hrest, List.append_nil, hp.2]
  | cons d ds =>
    obtain rfl : d = '\n' := hhead d (by rw [hrest]; rfl)
    have hfind : k.find ['\n'] = some (Markup.lineEnd k) := by
      refine Cursor.find_eq_some.mpr ⟨us, hp, ⟨ds, by rw [hrest]; rfl⟩, ?_⟩
      rintro as (_ | ⟨b, bs⟩) rfl hne ⟨vs, hvs⟩
      · exact hne rfl
      · obtain ⟨rfl, -⟩ := List.cons.inj hvs
        exact hno (by simp)
    rw [hfind, Option.map_some, Option.getD_some]

theorem blockEnd_map_offset (k : Cursor) :
    (Markup.blockEnd k).map Cursor.offset =
      (Text.find? ['*', '/'] k.rest).map fun n => k.offset + n + 2 := by
  rw [Markup.blockEnd]
  cases hl : k.find ['*', '/'] with
  | none =>
    rw [Text.find?_of_find_none hl]
    rfl
  | some l =>
    obtain ⟨n, hn, hoff⟩ := Text.find?_of_find hl
    obtain ⟨us, hus, ⟨ds, hds⟩, -⟩ := Cursor.find_eq_some.mp hl
    have hskip := (Cursor.skip_passes 2 l).2
    rw [← hds] at hskip
    rw [hn, Option.map_some, Option.map_some, Option.map_some, hskip, hoff]
    rfl

/-! ### One step -/

/-- The readers and `scan` agree at all points behind a point. -/
def AgreeBehind (src : Text) (k : Cursor) : Prop :=
  ∀ us l, k.Passes us l → us ≠ [] → TemplateAgrees src l ∧ ∀ depth, CodeAgrees src depth l

section

variable {k l : Cursor} {us : Text}

theorem TemplateAgrees.after (ih : AgreeBehind src k) (m : Option Cursor)
    (hm : ∀ l ∈ m, ∃ us, us ≠ [] ∧ k.Passes us l)
    (hf : templateEnd src k.offset = m.elim (some none) fun l => templateEnd src l.offset)
    (hs : ∀ below, scan (.template :: below) k.offset k.rest =
      m.bind fun l => scan (.template :: below) l.offset l.rest) : TemplateAgrees src k := by
  refine Agrees.after m (fun l hl => ?_) hf hs
  obtain ⟨us, hu, hus⟩ := hm l hl
  exact ⟨us, hus, (ih us l hus hu).1⟩

theorem TemplateAgrees.behind (ih : AgreeBehind src k) (hp : k.Passes us l) (hu : us ≠ [])
    (hf : templateEnd src k.offset = templateEnd src l.offset)
    (hs : ∀ below, scan (.template :: below) k.offset k.rest =
      scan (.template :: below) l.offset l.rest) : TemplateAgrees src k :=
  .after ih (some l) (by rintro _ ⟨⟩; exact ⟨us, hu, hp⟩) hf hs

theorem CodeAgrees.after {n : Nat} (ih : AgreeBehind src k) (m : Option Cursor)
    (hm : ∀ l ∈ m, ∃ us, us ≠ [] ∧ k.Passes us l)
    (hf : expressionEnd src (depth + 1) k.offset =
      m.elim (some none) fun l => expressionEnd src (n + 1) l.offset)
    (hs : ∀ base, scan (.brace :: (List.replicate depth .brace ++ base)) k.offset k.rest =
      m.bind fun l => scan (.brace :: (List.replicate n .brace ++ base)) l.offset l.rest) :
    CodeAgrees src depth k := by
  refine Agrees.after m (fun l hl => ?_) hf hs
  obtain ⟨us, hu, hus⟩ := hm l hl
  exact ⟨us, hus, (ih us l hus hu).2 n⟩

theorem CodeAgrees.behind {n : Nat} (ih : AgreeBehind src k) (hp : k.Passes us l) (hu : us ≠ [])
    (hf : expressionEnd src (depth + 1) k.offset = expressionEnd src (n + 1) l.offset)
    (hs : ∀ base, scan (.brace :: (List.replicate depth .brace ++ base)) k.offset k.rest =
      scan (.brace :: (List.replicate n .brace ++ base)) l.offset l.rest) :
    CodeAgrees src depth k :=
  .after ih (some l) (by rintro _ ⟨⟩; exact ⟨us, hu, hp⟩) hf hs

end

theorem templateAgrees_escape (hk : Cursor.In src ⟨o, '\\' :: rest⟩)
    (ih : AgreeBehind src ⟨o, '\\' :: rest⟩) : TemplateAgrees src ⟨o, '\\' :: rest⟩ := by
  have hx : src.at? o = some '\\' := Text.at?_eq_some hk rfl (by decide)
  cases rest with
  | nil =>
    have hend : templateEnd src o = some none := by
      rw [templateEnd_of_at? hx, if_pos rfl]
      exact templateEnd_of_none (at?_behind_last hk (by decide) 1)
    unfold TemplateAgrees
    rw [hend]
    exact .lost fun below => by simp [scan]
  | cons d rest =>
    have hp : Cursor.Passes ⟨o, '\\' :: d :: rest⟩ ['\\', d] ⟨o + 1 + d.utf8Size, rest⟩ :=
      (Cursor.passes_one o '\\' (d :: rest)).trans (Cursor.passes_one (o + 1) d rest)
    refine .behind ih hp (by simp) ?_ fun below => Markup.scan_escape d
    rw [templateEnd_of_at? hx, if_pos rfl]
    exact passesOver_escape (passesOver_templateEnd src) hk

theorem templateAgrees_interpolation (hk : Cursor.In src ⟨o, '$' :: '\x7b' :: rest⟩)
    (ih : AgreeBehind src ⟨o, '$' :: '\x7b' :: rest⟩) :
    TemplateAgrees src ⟨o, '$' :: '\x7b' :: rest⟩ := by
  have hnext : Cursor.In src ⟨o + 1, '\x7b' :: rest⟩ := in_next hk
  have hx : src.at? o = some '$' := Text.at?_eq_some hk rfl (by decide)
  have hopen : src.at? (o + 1) = some '\x7b' := Text.at?_eq_some hnext rfl (by decide)
  have hp : Cursor.Passes ⟨o, '$' :: '\x7b' :: rest⟩ ['$', '\x7b'] ⟨o + 2, rest⟩ := ⟨rfl, rfl⟩
  obtain ⟨m, hm, hpass, hscan⟩ := (ih _ _ hp (by simp)).2 0
  simp only at hm hscan
  have hbehind : ∀ l ∈ m, ∃ us, us ≠ [] ∧ Cursor.Passes ⟨o, '$' :: '\x7b' :: rest⟩ us l := by
    intro l hl
    obtain ⟨us, -, hus⟩ := hpass l hl
    exact ⟨_, by simp, hp.trans hus⟩
  refine .after ih m hbehind ?_ fun below => ?_
  · rw [templateEnd_of_at? hx, if_neg (by decide), if_neg (by decide), if_pos ⟨rfl, hopen⟩,
      expressionEnd_of_at? hopen, if_pos rfl, hm]
    cases m with
    | none => rfl
    | some l =>
      obtain ⟨us, hu, hus⟩ := hbehind l rfl
      exact onward_of_lt (hus.lt hu)
  · rw [Markup.scan_template (by decide), if_neg (by decide), if_pos ⟨rfl, rfl⟩]
    exact hscan (.template :: below)

theorem templateAgrees_of_behind {k : Cursor} (hk : k.In src) (ih : AgreeBehind src k) :
    TemplateAgrees src k := by
  obtain ⟨o, _ | ⟨c, rest⟩⟩ := k
  · unfold TemplateAgrees
    rw [templateEnd_of_none (Text.at?_eq_none hk rfl)]
    exact .lost fun below => by rw [scan]
  · have hp := Cursor.passes_one o c rest
    by_cases hascii : c.toNat < 128
    · have hx : src.at? o = some c := Text.at?_eq_some hk rfl hascii
      rw [Text.utf8Size_of_lt hascii] at hp
      by_cases hesc : c = '\\'
      · subst hesc
        exact templateAgrees_escape hk ih
      by_cases hend : c = backtick
      · subst hend
        unfold TemplateAgrees
        rw [templateEnd_of_at? hx, if_neg hesc, if_pos rfl]
        refine .here hp (by simp) fun below => ?_
        rw [Markup.scan_template hesc, if_pos rfl]
      by_cases hopen : c = '$' ∧ rest.head? = some '\x7b'
      · obtain ⟨rfl, hhead⟩ := hopen
        obtain ⟨rest, rfl⟩ := List.head?_eq_some_iff.mp hhead
        exact templateAgrees_interpolation hk ih
      refine .behind ih hp (by simp) ?_ fun below => ?_
      · have hnot : ¬ (c = '$' ∧ src.at? (o + 1) = some '\x7b') := by
          rwa [Text.at?_eq_some_iff (hk.passes hp) (by decide)]
        rw [templateEnd_of_at? hx, if_neg hesc, if_neg hend, if_neg hnot]
      · rw [Markup.scan_template hesc, if_neg hend, if_neg hopen, Text.utf8Size_of_lt hascii]
    · have hge := Nat.le_of_not_lt hascii
      have hdollar : c ≠ '$' := ne_of_le hge (by decide)
      refine .behind ih hp (by simp) ?_ fun below => ?_
      · exact (passesOver_templateEnd src).eq hk rfl (Nat.zero_le _) (Or.inr hge)
      · rw [Markup.scan_template (ne_of_le hge (by decide)), if_neg (ne_of_le hge (by decide)),
          if_neg fun h => hdollar h.1]

theorem codeAgrees_closing (hk : Cursor.In src ⟨o, '\x7d' :: rest⟩)
    (ih : AgreeBehind src ⟨o, '\x7d' :: rest⟩) : CodeAgrees src depth ⟨o, '\x7d' :: rest⟩ := by
  have hx : src.at? o = some '\x7d' := Text.at?_eq_some hk rfl (by decide)
  have hp : Cursor.Passes ⟨o, '\x7d' :: rest⟩ ['\x7d'] ⟨o + 1, rest⟩ := ⟨rfl, rfl⟩
  cases depth with
  | zero =>
    unfold CodeAgrees
    rw [expressionEnd_of_at? hx, if_neg (by decide), if_pos rfl, if_neg (by decide), if_pos rfl]
    refine .here hp (by simp) fun base => ?_
    rw [Markup.scan_code (by decide) (by decide), if_neg (by decide), if_pos rfl,
      if_neg (by decide)]
    rfl
  | succ depth =>
    refine .behind (n := depth) ih hp (by simp) ?_ fun base => ?_
    · rw [expressionEnd_of_at? hx, if_neg (by decide), if_pos rfl, if_neg (by omega),
        if_neg (by omega), Nat.add_sub_cancel]
    · rw [Markup.scan_code (by decide) (by decide), if_neg (by decide), if_pos rfl,
        if_neg (by decide), List.replicate_succ, List.cons_append, if_neg (by simp)]

theorem codeAgrees_quote {q : Char} (hq : q = '"' ∨ q = '\'') (hk : Cursor.In src ⟨o, q :: rest⟩)
    (ih : AgreeBehind src ⟨o, q :: rest⟩) : CodeAgrees src depth ⟨o, q :: rest⟩ := by
  have hascii : q.toNat < 128 := by rcases hq with rfl | rfl <;> decide
  have hmarks : q ≠ '\x7b' ∧ q ≠ '\x7d' ∧ q ≠ '/' := by rcases hq with rfl | rfl <;> decide
  have hx : src.at? o = some q := Text.at?_eq_some hk rfl hascii
  have hone := Text.utf8Size_of_lt hascii
  have hp := Cursor.passes_one o q rest
  have hnext := hk.passes hp
  rw [hone] at hp hnext
  obtain ⟨us, hu, hus⟩ : ∃ us, us ≠ [] ∧ Cursor.Passes ⟨o, q :: rest⟩ us
      ((closeQuote q (o + 1) rest).getD ⟨o + 1, rest⟩) := by
    cases hend : closeQuote q (o + 1) rest with
    | none => exact ⟨[q], by simp, hp⟩
    | some l =>
      obtain ⟨vs, -, hvs⟩ := (Markup.closeQuote_eq_some hq).mp hend
      exact ⟨_, by simp, hp.trans hvs⟩
  refine .behind (n := depth) ih hus hu ?_ fun base => ?_
  · have hoff : ((closeQuote q (o + 1) rest).map Cursor.offset).getD (o + 1) =
        ((closeQuote q (o + 1) rest).getD ⟨o + 1, rest⟩).offset := by
      cases closeQuote q (o + 1) rest <;> rfl
    rw [expressionEnd_of_at? hx, if_neg hmarks.1, if_neg hmarks.2.1, if_pos hq,
      stringEnd_eq hascii hnext, hoff]
    exact onward_of_lt (hus.lt hu)
  · rw [Markup.scan_code (by decide) hmarks.2.2, if_neg hmarks.1, if_neg hmarks.2.1, if_pos hq]

theorem codeAgrees_template (hk : Cursor.In src ⟨o, backtick :: rest⟩)
    (ih : AgreeBehind src ⟨o, backtick :: rest⟩) : CodeAgrees src depth ⟨o, backtick :: rest⟩ := by
  have hx : src.at? o = some backtick := Text.at?_eq_some hk rfl (by decide)
  have hp : Cursor.Passes ⟨o, backtick :: rest⟩ [backtick] ⟨o + 1, rest⟩ := ⟨rfl, rfl⟩
  obtain ⟨m, hm, hpass, hscan⟩ := (ih _ _ hp (by simp)).1
  simp only at hm hscan
  have hbehind : ∀ l ∈ m, ∃ us, us ≠ [] ∧ Cursor.Passes ⟨o, backtick :: rest⟩ us l := by
    intro l hl
    obtain ⟨us, -, hus⟩ := hpass l hl
    exact ⟨_, by simp, hp.trans hus⟩
  refine .after (n := depth) ih m hbehind ?_ fun base => ?_
  · rw [expressionEnd_of_at? hx, if_neg (by decide), if_neg (by decide), if_neg (by decide),
      if_pos rfl, hm]
    cases m with
    | none => rfl
    | some l =>
      obtain ⟨us, hu, hus⟩ := hbehind l rfl
      exact onward_of_lt (hus.lt hu)
  · rw [Markup.scan_code (by decide) (by decide), if_neg (by decide), if_neg (by decide),
      if_neg (by decide), if_pos rfl]
    exact hscan _

theorem codeAgrees_lineComment (hk : Cursor.In src ⟨o, '/' :: '/' :: rest⟩)
    (ih : AgreeBehind src ⟨o, '/' :: '/' :: rest⟩) :
    CodeAgrees src depth ⟨o, '/' :: '/' :: rest⟩ := by
  have hx : src.at? o = some '/' := Text.at?_eq_some hk rfl (by decide)
  have hx' : src.at? (o + 1) = some '/' := Text.at?_eq_some (in_next hk) rfl (by decide)
  have hp : Cursor.Passes ⟨o, '/' :: '/' :: rest⟩ ['/', '/'] ⟨o + 2, rest⟩ := ⟨rfl, rfl⟩
  obtain ⟨us, hus, -, -⟩ := Markup.exists_lineEnd ⟨o + 2, rest⟩
  refine .behind (n := depth) ih (hp.trans hus) (by simp) ?_ fun base => ?_
  · have hline : Markup.lineEnd ⟨o, '/' :: '/' :: rest⟩ = Markup.lineEnd ⟨o + 2, rest⟩ := rfl
    rw [expressionEnd_of_at? hx, if_neg (by decide), if_neg (by decide), if_neg (by decide),
      if_neg (by decide), if_pos ⟨rfl, hx'⟩, Text.from?_eq hk, Option.bind_some, lineEnd_offset hk,
      hline]
    exact onward_of_lt ((hp.trans hus).lt (by simp))
  · exact Markup.scan_lineComment (by decide)

theorem codeAgrees_blockComment (hk : Cursor.In src ⟨o, '/' :: '*' :: rest⟩)
    (ih : AgreeBehind src ⟨o, '/' :: '*' :: rest⟩) :
    CodeAgrees src depth ⟨o, '/' :: '*' :: rest⟩ := by
  have hx : src.at? o = some '/' := Text.at?_eq_some hk rfl (by decide)
  have hx' : src.at? (o + 1) = some '*' := Text.at?_eq_some (in_next hk) rfl (by decide)
  have hp : Cursor.Passes ⟨o, '/' :: '*' :: rest⟩ ['/', '*'] ⟨o + 2, rest⟩ := ⟨rfl, rfl⟩
  have hend := blockEnd_map_offset ⟨o + 2, rest⟩
  refine .after (n := depth) ih (Markup.blockEnd ⟨o + 2, rest⟩) (fun l hl => ?_) ?_
    fun base => ?_
  · obtain ⟨us, hus, -⟩ := Markup.blockEnd_eq_some.mp hl
    exact ⟨_, by simp, hp.trans hus⟩
  · rw [expressionEnd_of_at? hx, if_neg (by decide), if_neg (by decide), if_neg (by decide),
      if_neg (by decide), if_neg (by simp [hx']), if_pos ⟨rfl, hx'⟩, Text.from?_eq (hk.passes hp),
      Option.bind_some]
    have helim : ∀ m : Option Cursor, (m.elim (some none) fun l =>
        expressionEnd src (depth + 1) l.offset) =
          (m.map Cursor.offset).elim (some none) (expressionEnd src (depth + 1)) := by
      rintro (_ | l) <;> rfl
    rw [helim, hend]
    cases Text.find? ['*', '/'] rest <;> rfl
  · exact Markup.scan_blockComment (by decide)

theorem codeAgrees_slash (hline : rest.head? ≠ some '/') (hblock : rest.head? ≠ some '*')
    (hk : Cursor.In src ⟨o, '/' :: rest⟩) (ih : AgreeBehind src ⟨o, '/' :: rest⟩) :
    CodeAgrees src depth ⟨o, '/' :: rest⟩ := by
  have hx : src.at? o = some '/' := Text.at?_eq_some hk rfl (by decide)
  have hp : Cursor.Passes ⟨o, '/' :: rest⟩ ['/'] ⟨o + 1, rest⟩ := ⟨rfl, rfl⟩
  have hhead : ∀ d : Char, d.toNat < 128 → (src.at? (o + 1) = some d ↔ rest.head? = some d) :=
    fun d hd => Text.at?_eq_some_iff (hk.passes hp) hd
  refine .behind (n := depth) ih hp (by simp) ?_ fun base => ?_
  · rw [expressionEnd_of_at? hx, if_neg (by decide), if_neg (by decide), if_neg (by decide),
      if_neg (by decide), if_neg fun h => hline ((hhead _ (by decide)).mp h.2),
      if_neg fun h => hblock ((hhead _ (by decide)).mp h.2)]
  · refine Markup.scan_slash (by decide) fun d hd => ⟨?_, ?_⟩
    · rintro rfl
      exact hline hd
    · rintro rfl
      exact hblock hd

theorem codeAgrees_of_le (hge : 128 ≤ c.toNat) (hk : Cursor.In src ⟨o, c :: rest⟩)
    (ih : AgreeBehind src ⟨o, c :: rest⟩) : CodeAgrees src depth ⟨o, c :: rest⟩ := by
  have hp := Cursor.passes_one o c rest
  have hquote : ¬ (c = '"' ∨ c = '\'') := by
    rintro (h | h)
    · exact ne_of_le hge (by decide) h
    · exact ne_of_le hge (by decide) h
  refine .behind (n := depth) ih hp (by simp) ?_ fun base => ?_
  · exact (passesOver_expressionEnd src _).eq hk rfl (Nat.zero_le _) (Or.inr hge)
  · rw [Markup.scan_code (by decide) (ne_of_le hge (by decide)),
      if_neg (ne_of_le hge (by decide)), if_neg (ne_of_le hge (by decide)), if_neg hquote,
      if_neg (ne_of_le hge (by decide))]

theorem codeAgrees_of_behind {k : Cursor} (hk : k.In src) (ih : AgreeBehind src k) :
    CodeAgrees src depth k := by
  obtain ⟨o, _ | ⟨c, rest⟩⟩ := k
  · unfold CodeAgrees
    rw [expressionEnd_of_none (Text.at?_eq_none hk rfl)]
    exact .lost fun base => by rw [scan]
  · have hp := Cursor.passes_one o c rest
    by_cases hascii : c.toNat < 128
    · have hx : src.at? o = some c := Text.at?_eq_some hk rfl hascii
      have hone := Text.utf8Size_of_lt hascii
      rw [hone] at hp
      by_cases hopen : c = '\x7b'
      · subst hopen
        refine .behind (n := depth + 1) ih hp (by simp) ?_ fun base => ?_
        · rw [expressionEnd_of_at? hx, if_pos rfl]
        · rw [Markup.scan_code (by decide) (by decide), if_pos rfl]
          rfl
      by_cases hclose : c = '\x7d'
      · subst hclose
        exact codeAgrees_closing hk ih
      by_cases hquote : c = '"' ∨ c = '\''
      · exact codeAgrees_quote hquote hk ih
      by_cases hback : c = backtick
      · subst hback
        exact codeAgrees_template hk ih
      by_cases hslash : c = '/'
      · subst hslash
        by_cases hline : rest.head? = some '/'
        · obtain ⟨rest, rfl⟩ := List.head?_eq_some_iff.mp hline
          exact codeAgrees_lineComment hk ih
        by_cases hblock : rest.head? = some '*'
        · obtain ⟨rest, rfl⟩ := List.head?_eq_some_iff.mp hblock
          exact codeAgrees_blockComment hk ih
        exact codeAgrees_slash hline hblock hk ih
      refine .behind (n := depth) ih hp (by simp) ?_ fun base => ?_
      · rw [expressionEnd_of_at? hx, if_neg hopen, if_neg hclose, if_neg hquote, if_neg hback,
          if_neg fun h => hslash h.1, if_neg fun h => hslash h.1]
      · rw [Markup.scan_code (by decide) hslash, if_neg hopen, if_neg hclose, if_neg hquote,
          if_neg hback, hone]
    · exact codeAgrees_of_le (Nat.le_of_not_lt hascii) hk ih

/-! ### All steps -/

/-- **The readers agree with `scan` everywhere.** -/
theorem agrees {k : Cursor} (hk : k.In src) :
    TemplateAgrees src k ∧ ∀ depth, CodeAgrees src depth k := by
  obtain ⟨n, hn⟩ : ∃ n, n = k.rest.length := ⟨_, rfl⟩
  induction n using Nat.strong_induction_on generalizing k with
  | _ n ih =>
    have hbehind : AgreeBehind src k := by
      intro us l hp hu
      have hlen : k.rest.length = us.length + l.rest.length := by rw [hp.1, List.length_append]
      have hpos := List.length_pos_iff.mpr hu
      exact ih l.rest.length (by omega) (hk.passes hp) rfl
    exact ⟨templateAgrees_of_behind hk hbehind, fun depth => codeAgrees_of_behind hk hbehind⟩

/-- **The end of a template literal is found byte by byte**, without a wrong cut. -/
theorem templateEnd_eq {k : Cursor} (hk : k.In src) :
    templateEnd src k.offset = some ((Markup.templateEnd k).map Cursor.offset) := by
  obtain ⟨m, hm, -, hscan⟩ := (agrees hk).1
  have hend : Markup.templateEnd k = m := by
    rw [Markup.templateEnd]
    refine (hscan []).trans ?_
    cases m with
    | none => rfl
    | some l =>
      show scan [] l.offset l.rest = some l
      rw [scan]
  rw [hm, hend]

/-- **The end of an expression in braces is found byte by byte**, without a wrong cut. -/
theorem expressionEnd_eq (hk : Cursor.In src ⟨o, '\x7b' :: rest⟩) :
    expressionEnd src 0 o =
      some ((Markup.expressionEnd ⟨o, '\x7b' :: rest⟩).map Cursor.offset) := by
  have hx : src.at? o = some '\x7b' := Text.at?_eq_some hk rfl (by decide)
  have hnext : Cursor.In src ⟨o + 1, rest⟩ := in_next hk
  obtain ⟨m, hm, -, hscan⟩ := (agrees hnext).2 0
  have hend : Markup.expressionEnd ⟨o, '\x7b' :: rest⟩ = m := by
    rw [Markup.expressionEnd, Markup.scan_code (by decide) (by decide), if_pos rfl]
    refine (hscan [.outside]).trans ?_
    cases m with
    | none => rfl
    | some l => rfl
  rw [expressionEnd_of_at? hx, if_pos rfl, hend]
  exact hm

end

end DesignLint.Bytewise
