import DesignLint.Proofs.Bytewise.Comment
import DesignLint.Proofs.Bytewise.OpeningTag

/-!
# Finding elements, byte by byte

`Bytewise.findElements` is the search for the elements of a script as it is done on bytes: it goes
to every offset at which `<` and the name stand, looks at the byte in front of it, reads the opening
tag, looks for the closing tag behind it, and cuts out the children to check them. It finds the
elements that `Markup.findElements` finds (`findElements_eq`). In particular it has a result, so
every offset at which a text is cut on the way is a boundary, and every reader comes forward until
it has come to its end.
-/

namespace DesignLint.Bytewise

open Markup (Flaw endsTagName joinsName inSpans)

/-- Whether `<name` stands at the offset of a `<`, followed by the end of the name. -/
def opensTag (src name : Text) (i : Nat) : Option Bool := do
  let rest ← src.from? (i + 1)
  return name.isPrefixOf rest && (src.at? (i + 1 + name.size)).any endsTagName

/-- The span of the name and the offset after the closing tag `</name>`, if it stands at an
offset. -/
def closesTag? (src name : Text) (i : Nat) : Option (Option (Span × Nat)) := do
  if ['<', '/'].isPrefixOf (← src.from? i) then
    if name.isPrefixOf (← src.from? (i + 2)) then
      let stop := i + 2 + name.size
      let rest ← src.from? stop
      let trimmed := Text.trimStart rest
      if ['>'].isPrefixOf trimmed then
        return some (⟨i + 2, stop⟩, stop + (rest.size - trimmed.size) + 1)
      else return none
    else return none
  else return none

/-- Finds the closing tag that matches `depth + 1` open elements of a name: the span of its name and
the offset of its `<`. -/
def findClosing (src name : Text) (depth i : Nat) : Option (Option (Span × Nat)) := do
  match Text.find? ['<'] (← src.from? i) with
  | none => return none
  | some n =>
    let lt := i + n
    match ← closesTag? src name lt with
    | some (span, stop) =>
      if depth = 0 then return some (span, lt)
      else if _ : i < stop ∧ stop ≤ src.size then findClosing src name (depth - 1) stop
      else none
    | none =>
      if ← opensTag src name lt then
        match ← readOpeningTag src lt with
        | some e =>
          if e.terminated then
            if _ : i < e.tag.stop ∧ e.tag.stop ≤ src.size then
              findClosing src name (if e.selfClosing then depth else depth + 1) e.tag.stop
            else none
          else return none
        | none => return none
      else if _ : i < lt + 1 ∧ lt + 1 ≤ src.size then findClosing src name depth (lt + 1)
      else none
termination_by src.size - i

/-- The offset behind what begins with a byte of the children. -/
def childStep (src : Text) (i : Nat) (c : Char) : Option (Except Flaw Nat) :=
  if c = '\x7b' then do
    match ← expressionEnd src 0 i with
    | some stop => return .ok stop
    | none => return .error .unbalancedExpression
  else if c = '\x7d' then some (.error .unbalancedExpression)
  else if c = '<' ∧ src.at? (i + 1) = some '/' then do
    match Text.find? ['>'] (← src.from? i) with
    | some n => return .ok (i + n + 1)
    | none => return .error .unterminatedClosingTag
  else if c = '<' ∧ src.at? (i + 1) = some '>' then some (.ok (i + 2))
  else if c = '<' ∧ (src.at? (i + 1)).any Char.isAlpha then do
    match ← readOpeningTag src i with
    | some e => return if e.terminated then .ok e.tag.stop else .error .unterminatedTag
    | none => return .error .unterminatedTag
  else some (.ok (i + 1))

/-- Looks for a flaw from an offset on. -/
def flawFrom (src : Text) (i : Nat) : Option (Option Flaw) :=
  match src.at? i with
  | none => some none
  | some c => do
    match ← childStep src i c with
    | .ok next => if _ : i < next ∧ next ≤ src.size then flawFrom src next else none
    | .error flaw => return some flaw
termination_by src.size - i

/-- Whether the children of an element hold only balanced expressions and terminated tags. -/
def checkChildren (src : Text) : Option Children := do
  match ← flawFrom src 0 with
  | some flaw => return .malformed flaw.message
  | none => return .wellFormed

/-- Whether what stands in front of an offset takes a `<` there for its own. -/
def joined? (src : Text) (i : Nat) : Option Bool :=
  if i = 0 then some false else (src.at? (i - 1)).map joinsName

/-- Adds the closing tag and the children to an element. -/
def withClosing (src name : Text) (e : Element) : Option Element := do
  if e.terminated && !e.selfClosing then
    match ← findClosing src name 0 e.tag.stop with
    | some (closing, lt) =>
      let children ← checkChildren (← src.slice? e.tag.stop lt)
      return { e with closing := some closing, children }
    | none => return { e with children := .unclosed }
  else return e

/-- The element with a name whose `<` stands at an offset. -/
def elementAt? (src name : Text) (comments : List Span) (i : Nat) : Option (Option Element) := do
  if ← joined? src i then return none
  else if !(← opensTag src name i) || inSpans comments i then return none
  else
    match ← readOpeningTag src i with
    | some e =>
      let e ← withClosing src name e
      return some e
    | none => return none

/-- The elements with a name at some offsets. -/
def elementsAt (src name : Text) (comments : List Span) : List Nat → Option (List Element)
  | [] => some []
  | i :: is => do
    let e? ← elementAt? src name comments i
    let es ← elementsAt src name comments is
    return e?.toList ++ es

/-- The offsets at which a text occurs, none overlapping an earlier one. -/
def matchIndices (lead src : Text) : List Nat :=
  (Markup.occurrences lead 0 none 0 src).map fun p => p.2.offset

/-- The elements of a script with a tag name, in the order of their opening tags. -/
def findElements (src name : Text) : Option (List Element) := do
  let comments ← commentsFrom src 0
  elementsAt src name comments (matchIndices ('<' :: name) src)

/-! ### Characters around tags -/

theorem endsTagName_of_le (c : Char) (h : 128 ≤ c.toNat) : endsTagName c = false := by
  have hne : ∀ d : Char, d.toNat < 128 → (c == d) = false := fun _ => beq_of_le h
  rw [endsTagName, isTagBlank_of_le c h, hne _ (by decide), hne _ (by decide)]
  rfl

theorem joinsName_of_le (c : Char) (h : 128 ≤ c.toNat) : joinsName c = false := by
  have hne : ∀ d : Char, d.toNat < 128 → (c == d) = false := fun _ => beq_of_le h
  rw [joinsName, isAlphanum_of_le h, hne _ (by decide), hne _ (by decide), hne _ (by decide)]
  rfl

section

variable {src name cs rest : Text} {c : Char} {o depth : Nat} {k l : Cursor} {e : Element}

/-! ### Closing tags -/

theorem opensTag_eq (hk : Cursor.In src ⟨o, '<' :: rest⟩) :
    opensTag src name o = some (Markup.opensTag name ⟨o, '<' :: rest⟩) := by
  have hnext : Cursor.In src ⟨o + 1, rest⟩ := in_next hk
  rw [opensTag, Text.from?_eq hnext, Markup.opensTag]
  simp only [Option.bind_eq_bind, Option.bind_some, List.drop_one, List.tail_cons]
  by_cases hname : name.isPrefixOf rest
  · obtain ⟨vs, rfl⟩ := List.isPrefixOf_iff_prefix.mp hname
    have hafter := hnext.passes (⟨rfl, rfl⟩ : Cursor.Passes _ name ⟨o + 1 + name.size, vs⟩)
    have hany := Text.any_at? endsTagName_of_le hafter
    simp only at hany
    rw [hany, List.drop_left]
    rfl
  · simp [hname]

theorem skipWhile_isBlank (o : Nat) (us : Text) :
    Cursor.skipWhile isBlank ⟨o, us⟩ =
      ⟨o + (us.size - (Text.trimStart us).size), Text.trimStart us⟩ := by
  have hsize : us.size = Text.size (us.takeWhile isBlank) + (Text.trimStart us).size := by
    rw [← Text.size_append, Text.trimStart, List.takeWhile_append_dropWhile]
  rw [Cursor.skipWhile_eq, hsize, Nat.add_sub_cancel]
  rfl

theorem closesTag?_eq (hk : k.In src) :
    closesTag? src name k.offset =
      some ((Markup.closesTag? name k).map fun p => (p.1, p.2.offset)) := by
  rw [closesTag?, Text.from?_eq hk, Markup.closesTag?]
  simp only [Option.bind_eq_bind, Option.bind_some]
  by_cases hopen : ['<', '/'] <+: k.rest
  · obtain ⟨vs, hvs⟩ := hopen
    have hp : k.Passes ['<', '/'] ⟨k.offset + 2, vs⟩ := ⟨hvs.symm, rfl⟩
    have hin := hk.passes hp
    have hfrom := Text.from?_eq hin
    simp only at hfrom
    rw [← hvs, if_pos (by simp), hfrom, Option.bind_some]
    by_cases hname : name <+: vs
    · obtain ⟨ws, rfl⟩ := hname
      have hq : Cursor.Passes ⟨k.offset + 2, name ++ ws⟩ name ⟨k.offset + 2 + name.size, ws⟩ :=
        ⟨rfl, rfl⟩
      have hfrom' := Text.from?_eq (hin.passes hq)
      simp only at hfrom'
      have hskip : k.skipText ('<' :: '/' :: name) = some ⟨k.offset + 2 + name.size, ws⟩ :=
        Cursor.skipText_eq_some.mpr (hp.trans hq)
      rw [if_pos (by simp), hfrom', hskip, Option.bind_some, Option.bind_some, skipWhile_isBlank,
        Cursor.skipText]
      split_ifs <;> rfl
    · have hskip : k.skipText ('<' :: '/' :: name) = none := by
        rw [Cursor.skipText, ← hvs, if_neg]
        simpa using hname
      rw [if_neg (by rwa [List.isPrefixOf_iff_prefix]), hskip]
      rfl
  · have hskip : k.skipText ('<' :: '/' :: name) = none := by
      rw [Cursor.skipText, if_neg]
      rw [List.isPrefixOf_iff_prefix]
      exact fun h => hopen ((List.prefix_append ['<', '/'] name).trans h)
    rw [if_neg (by rwa [List.isPrefixOf_iff_prefix]), hskip]
    rfl

theorem tag_stop_of_readOpeningTag (h : Markup.readOpeningTag k = some (e, l)) :
    e.tag.stop = l.offset := by
  obtain ⟨p, m, te, htag⟩ := Markup.readOpeningTag_eq_some.mp h
  rw [htag.tag_eq]

theorem in_of_readOpeningTag (hk : k.In src) (h : Markup.readOpeningTag k = some (e, l)) :
    l.In src := by
  obtain ⟨p, m, te, htag⟩ := Markup.readOpeningTag_eq_some.mp h
  exact (htag.on hk).2.2.2

/-- **The closing tag is found byte by byte**, without a wrong cut. -/
theorem findClosing_eq {fuel : Nat} (hk : k.In src) (hf : k.rest.length < fuel) :
    findClosing src name depth k.offset =
      some ((Markup.findClosing name fuel depth k).map fun p => (p.1, p.2.offset)) := by
  induction fuel generalizing depth k with
  | zero => omega
  | succ fuel ih =>
    rw [findClosing, Text.from?_eq hk, Markup.findClosing]
    simp only [Option.bind_eq_bind, Option.bind_some]
    cases hfind : k.find ['<'] with
    | none =>
      rw [Text.find?_of_find_none hfind]
      rfl
    | some lt =>
      obtain ⟨n, hn, hoff⟩ := Text.find?_of_find hfind
      obtain ⟨us, hus, ⟨rest, hrest⟩, -⟩ := Cursor.find_eq_some.mp hfind
      have hlt := hk.passes hus
      have hle := Cursor.length_find_le hfind
      obtain ⟨o, cs⟩ := lt
      obtain rfl : cs = '<' :: rest := hrest.symm
      -- whatever is found there, the search goes on behind it
      have hbehind : ∀ {vs : Text} {next : Cursor} {depth : Nat}, k.Passes vs next → vs ≠ [] →
          (if _ : k.offset < next.offset ∧ next.offset ≤ src.size then
            findClosing src name depth next.offset else none) =
              some ((Markup.findClosing name fuel depth next).map fun p => (p.1, p.2.offset)) := by
        intro vs next depth hp hv
        have hlen := Markup.length_lt_of_passes hp hv
        rw [dif_pos (hk.ahead hp hv)]
        exact ih (hk.passes hp) (by omega)
      have hclose : closesTag? src name o =
          some ((Markup.closesTag? name ⟨o, '<' :: rest⟩).map fun p => (p.1, p.2.offset)) :=
        closesTag?_eq hlt
      simp only at hoff
      simp only [hn, hoff, hclose, opensTag_eq hlt, readOpeningTag_eq hlt, Option.bind_some]
      cases hcl : Markup.closesTag? name ⟨o, '<' :: rest⟩ with
      | some p =>
        obtain ⟨s, next⟩ := p
        obtain ⟨q, vs, hq, -, hvs⟩ := Markup.closesTag?_eq_some hcl
        cases depth with
        | zero => rfl
        | succ depth => exact hbehind (hus.trans (hq.trans hvs)) (by simp)
      | none =>
        simp only [Option.map_none]
        by_cases hopens : Markup.opensTag name ⟨o, '<' :: rest⟩
        · rw [if_pos hopens, if_pos hopens]
          cases hread : Markup.readOpeningTag ⟨o, '<' :: rest⟩ with
          | none => rfl
          | some p =>
            obtain ⟨e, next⟩ := p
            obtain ⟨q, m, te, htag⟩ := Markup.readOpeningTag_eq_some.mp hread
            obtain ⟨vs, hv, hvs⟩ := htag.exists_passes_all
            simp only [Option.map_some, tag_stop_of_readOpeningTag hread]
            by_cases hterm : e.terminated
            · rw [if_pos hterm, if_pos hterm]
              exact hbehind (hus.trans hvs) (by simp [hv])
            · rw [if_neg hterm, if_neg hterm]
              rfl
        · rw [if_neg hopens, if_neg hopens]
          exact hbehind (hus.trans (Cursor.passes_one o '<' rest)) (by simp)

/-! ### Children -/

theorem childStep_of_le {i : Nat} (hc : 128 ≤ c.toNat) :
    childStep src i c = some (.ok (i + 1)) := by
  have hne : ∀ d : Char, d.toNat < 128 → c ≠ d := fun _ => ne_of_le hc
  rw [childStep, if_neg (hne _ (by decide)), if_neg (hne _ (by decide)),
    if_neg fun h => hne _ (by decide) h.1, if_neg fun h => hne _ (by decide) h.1,
    if_neg fun h => hne _ (by decide) h.1]

theorem markup_childStep_of_ne (h1 : c ≠ '\x7b') (h2 : c ≠ '\x7d') (h3 : c ≠ '<') :
    Markup.childStep ⟨o, c :: cs⟩ = .ok ⟨o + c.utf8Size, cs⟩ := by
  simp only [Markup.childStep, beq_iff_eq, if_neg h1, if_neg h2, if_neg h3]
  rfl

/-- What begins with a `<` among the children is read byte by byte. -/
theorem childStep_lt (hk : Cursor.In src ⟨o, '<' :: cs⟩) :
    childStep src o '<' = some ((Markup.childStep ⟨o, '<' :: cs⟩).map Cursor.offset) := by
  have hnext : Cursor.In src ⟨o + 1, cs⟩ := in_next hk
  have hone : ('<' == '\x7b') = false ∧ ('<' == '\x7d') = false := by decide
  rw [childStep, if_neg (by decide), if_neg (by decide)]
  rcases cs with _ | ⟨d, ds⟩
  · rw [Text.at?_eq_none hnext rfl]
    rfl
  have hmark : ∀ x : Char, x.toNat < 128 → (src.at? (o + 1) = some x ↔ d = x) := by
    intro x hx
    rw [Text.at?_eq_some_iff hnext hx]
    simp
  have hletter : (src.at? (o + 1)).any Char.isAlpha = d.isAlpha := Text.any_at? isAlpha_of_le hnext
  simp only [true_and, hmark _ (show '/'.toNat < 128 by decide),
    hmark _ (show '>'.toNat < 128 by decide), hletter, Text.from?_eq hk, readOpeningTag_eq hk,
    Option.bind_eq_bind, Option.bind_some, Markup.childStep, hone.1, hone.2, Bool.false_eq_true,
    if_false, beq_self_eq_true, if_true, beq_iff_eq]
  split_ifs with hslash hgt halpha
  · cases hfind : Cursor.find ['>'] ⟨o, '<' :: d :: ds⟩ with
    | none =>
      rw [Text.find?_of_find_none hfind]
      rfl
    | some l =>
      obtain ⟨n, hn, hoff⟩ := Text.find?_of_find hfind
      obtain ⟨us, -, ⟨vs, hvs⟩, -⟩ := Cursor.find_eq_some.mp hfind
      have hskip := (Cursor.skip_passes 1 l).2
      rw [← hvs] at hskip
      simp only at hn hoff
      simp only [hn, hoff]
      show some (Except.ok (l.offset + 1)) = some (Except.ok (l.skip 1).offset)
      rw [hskip]
      rfl
  · subst hgt
    rfl
  · cases hread : Markup.readOpeningTag ⟨o, '<' :: d :: ds⟩ with
    | none => rfl
    | some p =>
      obtain ⟨e, next⟩ := p
      simp only [Option.map_some, tag_stop_of_readOpeningTag hread]
      split_ifs <;> rfl
  · rfl

theorem childStep_eq (hk : Cursor.In src ⟨o, c :: cs⟩) (hc : c.toNat < 128) :
    childStep src o c = some ((Markup.childStep ⟨o, c :: cs⟩).map Cursor.offset) := by
  by_cases hlt : c = '<'
  · subst hlt
    exact childStep_lt hk
  by_cases hopen : c = '\x7b'
  · subst hopen
    rw [childStep, if_pos rfl, expressionEnd_eq hk]
    simp only [Option.bind_eq_bind, Option.bind_some, Markup.childStep, beq_self_eq_true, if_true]
    cases Markup.expressionEnd ⟨o, '\x7b' :: cs⟩ <;> rfl
  by_cases hclose : c = '\x7d'
  · subst hclose
    rfl
  rw [childStep, if_neg hopen, if_neg hclose, if_neg fun h => hlt h.1, if_neg fun h => hlt h.1,
    if_neg fun h => hlt h.1, markup_childStep_of_ne hopen hclose hlt, Text.utf8Size_of_lt hc]
  rfl

theorem passesOver_flawFrom (src : Text) : src.PassesOver (flawFrom src) := by
  intro i x hx hge
  have hahead : i < i + 1 ∧ i + 1 ≤ src.size := ⟨Nat.lt_succ_self i, Text.lt_size_of_at? hx⟩
  rw [flawFrom, hx]
  simp only [childStep_of_le hge, Option.bind_eq_bind, Option.bind_some, dif_pos hahead]

theorem flawFrom_eq {fuel : Nat} (hk : k.In src) (hf : k.rest.length ≤ fuel) :
    flawFrom src k.offset = some (Markup.flawFrom fuel k) := by
  induction fuel generalizing k with
  | zero =>
    rw [flawFrom, Text.at?_eq_none hk (List.length_eq_zero_iff.mp (Nat.le_zero.mp hf))]
    rfl
  | succ fuel ih =>
    obtain ⟨o, _ | ⟨c, cs⟩⟩ := k
    · rw [flawFrom, Text.at?_eq_none hk rfl]
      rfl
    have hbehind : ∀ next, Markup.childStep ⟨o, c :: cs⟩ = .ok next →
        (o < next.offset ∧ next.offset ≤ src.size) ∧
          flawFrom src next.offset = some (Markup.flawFrom fuel next) := by
      intro next hstep
      obtain ⟨us, hne, hus⟩ := Markup.exists_passes_of_childStep hstep
      have hlen := Markup.length_lt_of_passes hus hne
      exact ⟨hk.ahead hus hne, ih (hk.passes hus) (by omega)⟩
    rw [Markup.flawFrom, if_neg (by simp)]
    by_cases hascii : c.toNat < 128
    · have hx : src.at? o = some c := Text.at?_eq_some hk rfl hascii
      rw [flawFrom, hx]
      simp only [childStep_eq hk hascii, Option.bind_eq_bind, Option.bind_some]
      cases hstep : Markup.childStep ⟨o, c :: cs⟩ with
      | error flaw => rfl
      | ok next =>
        obtain ⟨hahead, hflaw⟩ := hbehind next hstep
        exact (dif_pos hahead).trans hflaw
    · have hge := Nat.le_of_not_lt hascii
      have hstep : Markup.childStep ⟨o, c :: cs⟩ = .ok ⟨o + c.utf8Size, cs⟩ :=
        markup_childStep_of_ne (ne_of_le hge (by decide)) (ne_of_le hge (by decide))
          (ne_of_le hge (by decide))
      have hpass := (passesOver_flawFrom src).eq hk rfl (Nat.zero_le _) (Or.inr hge)
      rw [hstep]
      exact hpass.trans (hbehind _ hstep).2

theorem checkChildren_eq (us : Text) : checkChildren us = some (Markup.checkChildren us) := by
  have hflaw : flawFrom us 0 = some (Markup.flawFrom us.length (.start us)) :=
    flawFrom_eq (Cursor.in_start us) (Nat.le_refl _)
  rw [checkChildren, hflaw, Markup.checkChildren]
  simp only [Option.bind_eq_bind, Option.bind_some]
  cases Markup.flawFrom us.length (.start us) <;> rfl

/-! ### Elements -/

theorem joined?_eq {b : Option Char} {lead : Text}
    (h : (b, k) ∈ Markup.occurrences lead 0 none 0 src) :
    joined? src k.offset = some (b.any joinsName) := by
  rcases Markup.before_of_mem_occurrences h with ⟨rfl, rfl⟩ | ⟨c, l, us, rfl, hus, hc⟩
  · rfl
  · have hl : l.In src := ⟨us, hus⟩
    have hpos := c.utf8Size_pos
    have hoff : k.offset = l.offset + c.utf8Size := hc.2
    rw [joined?, if_neg (by omega)]
    by_cases hascii : c.toNat < 128
    · have hprev : k.offset - 1 = l.offset := by
        rw [hoff, Text.utf8Size_of_lt hascii, Nat.add_sub_cancel]
      rw [hprev, Text.at?_eq_some hl hc.1 hascii]
      rfl
    · have hge := Nat.le_of_not_lt hascii
      have hprev : k.offset - 1 = l.offset + (c.utf8Size - 1) := by omega
      obtain ⟨x, hx, hxge⟩ := Text.exists_at? hl hc.1 (j := c.utf8Size - 1) (by omega) hge
      rw [hprev, hx, Option.map_some, joinsName_of_le x hxge, Option.any_some,
        joinsName_of_le c hge]

theorem withClosing_eq (hl : l.In src) (he : e.tag.stop = l.offset) :
    withClosing src name e = some (Markup.withClosing name e l) := by
  rw [withClosing, Markup.withClosing, he, findClosing_eq hl (Nat.lt_succ_self _)]
  simp only [Option.bind_eq_bind, Option.bind_some]
  split_ifs
  · cases hfind : Markup.findClosing name (l.rest.length + 1) 0 l with
    | none => rfl
    | some p =>
      obtain ⟨s, lt⟩ := p
      obtain ⟨us, q, hus, -, -⟩ := Markup.findClosing_eq_some hfind
      simp only [Option.map_some, Text.slice?_eq hl hus, Option.bind_some, checkChildren_eq,
        hus.upTo_eq]
      rfl
  · rfl

theorem elementAt?_eq {b : Option Char} {comments : List Span}
    (h : (b, k) ∈ Markup.occurrences ('<' :: name) 0 none 0 src) :
    elementAt? src name comments k.offset = some (Markup.elementAt? name comments b k) := by
  obtain ⟨⟨vs, hvs⟩, hus⟩ := Markup.mem_occurrences h
  have hk : k.In src := hus
  have hjoined := joined?_eq h
  obtain ⟨o, cs⟩ := k
  obtain rfl : cs = '<' :: (name ++ vs) := hvs.symm
  simp only at hjoined
  rw [elementAt?, hjoined, Markup.elementAt?]
  simp only [Option.bind_eq_bind, Option.bind_some, opensTag_eq hk, readOpeningTag_eq hk]
  cases b.any joinsName with
  | true => rfl
  | false =>
    simp only [Bool.false_eq_true, if_false, Bool.false_or]
    split_ifs
    · rfl
    · cases hread : Markup.readOpeningTag ⟨o, '<' :: (name ++ vs)⟩ with
      | none => rfl
      | some p =>
        obtain ⟨e, next⟩ := p
        simp only [Option.map_some,
          withClosing_eq (in_of_readOpeningTag hk hread) (tag_stop_of_readOpeningTag hread)]
        rfl

theorem elementsAt_eq {comments : List Span} (ps : List (Option Char × Cursor))
    (h : ∀ p ∈ ps, p ∈ Markup.occurrences ('<' :: name) 0 none 0 src) :
    elementsAt src name comments (ps.map fun p => p.2.offset) =
      some (ps.filterMap fun p => Markup.elementAt? name comments p.1 p.2) := by
  induction ps with
  | nil => rfl
  | cons p ps ih =>
    obtain ⟨hp, hps⟩ := List.forall_mem_cons.mp h
    rw [List.map_cons, elementsAt, elementAt?_eq hp, ih hps, List.filterMap_cons]
    cases Markup.elementAt? name comments p.1 p.2 <;> rfl

/-- **Elements are found byte by byte**, without a wrong cut. -/
theorem findElements_eq (src name : Text) :
    findElements src name = some (Markup.findElements src name) := by
  have hcomments : commentsFrom src 0 = some (Markup.commentSpans src) :=
    commentsFrom_eq (.refl (Cursor.start src)) (Nat.le_refl _)
  rw [findElements, hcomments, matchIndices]
  exact elementsAt_eq _ fun _ hp => hp

end

end DesignLint.Bytewise
