import DesignLint.Proofs.Bytewise.Enclosure
import DesignLint.Proofs.Markup.OpeningTag

/-!
# Opening tags, byte by byte

`Bytewise.readOpeningTag` reads an opening tag from offset to offset. It cuts the text where it
takes out a name, a quoted constant or what stands inside braces, and finds in it what
`Markup.readOpeningTag` finds (`readOpeningTag_eq`), so no cut is ever wrong: names and marks are
ASCII, and what is cut off at the ends of a constant or an expression is a mark of one byte.
-/

namespace DesignLint.Bytewise

open Markup (backtick isNameChar TagEnd TagStep Enclosed)

/-- What an attribute's expression is. -/
def expressionValue (inner : Text) : Option AttributeValue :=
  match inner.at? 0 with
  | none => some (.expression (String.ofList inner))
  | some c =>
    if c = '"' ∨ c = '\'' then
      if stringEnd inner c 1 = some inner.size then do
        let source ← inner.slice? 1 (inner.size - 1)
        return .literal (String.ofList source)
      else some (.expression (String.ofList inner))
    else if c = backtick then do
      if (← templateEnd inner 1) = some inner.size then
        if Text.has ['$', '\x7b'] inner then return .template (String.ofList inner)
        else
          let source ← inner.slice? 1 (inner.size - 1)
          return .literal (String.ofList source)
      else return .expression (String.ofList inner)
    else some (.expression (String.ofList inner))

/-- What stands at an offset inside an opening tag, with the offset behind it. -/
inductive Step
  | finish (selfClosing : Bool) (next : Nat)
  | attribute (a : Attribute) (next : Nat)
  | comment (next : Nat)
  | stuck (here : Nat)

/-- A step of a reader of characters. -/
def Step.ofTagStep : TagStep → Step
  | .finish selfClosing next => .finish selfClosing next.offset
  | .attribute a next => .attribute a next.offset
  | .comment next => .comment next.offset
  | .stuck here => .stuck here.offset

/-- Reads a spread or a comment in braces. -/
def braceStep (src : Text) (i : Nat) : Option Step := do
  match ← expressionEnd src 0 i with
  | none => return .stuck i
  | some stop =>
    let inner := Text.trim (← src.slice? (i + 1) (stop - 1))
    if ['.', '.', '.'].isPrefixOf inner then
      let operand := String.ofList (Text.trim (inner.drop 3))
      return .attribute ⟨"...", .spread operand, ⟨i, stop⟩⟩ stop
    else if ['/', '*'].isPrefixOf inner && ['*', '/'].isSuffixOf inner then return .comment stop
    else return .stuck i

/-- Reads the value of an attribute: a quoted constant or an expression in braces. -/
def readValue (src : Text) (i : Nat) : Option (Option (AttributeValue × Nat)) :=
  match src.at? i with
  | none => some none
  | some c =>
    if c = '"' ∨ c = '\'' then do
      match Text.find? [c] (← src.from? (i + 1)) with
      | none => return none
      | some n =>
        let stop := i + 1 + n + 1
        let inside ← src.slice? (i + 1) (stop - 1)
        return some (.literal (String.ofList inside), stop)
    else if c = '\x7b' then do
      match ← expressionEnd src 0 i with
      | none => return none
      | some stop =>
        let value ← expressionValue (Text.trim (← src.slice? (i + 1) (stop - 1)))
        return some (value, stop)
    else some none

/-- Reads an attribute that starts with a name. -/
def nameStep (src : Text) (i : Nat) : Option Step := do
  let j := Text.skipBytes isNameChar src i
  let name := String.ofList (← src.slice? i j)
  let m := Text.skipBytes isTagBlank src j
  if src.at? m = some '=' then
    match ← readValue src (Text.skipBytes isTagBlank src (m + 1)) with
    | some (value, stop) => return .attribute ⟨name, value, ⟨i, stop⟩⟩ stop
    | none => return .stuck j
  else return .attribute ⟨name, .flag, ⟨i, j⟩⟩ j

/-- Reads what stands at an offset inside an opening tag that is not blank. -/
def tagStep (src : Text) (i : Nat) : Option Step :=
  match src.at? i with
  | none => some (.stuck i)
  | some c =>
    if c = '/' ∧ src.at? (i + 1) = some '>' then some (.finish true (i + 2))
    else if c = '>' then some (.finish false (i + 1))
    else if c = '\x7b' then braceStep src i
    else if isNameChar c then nameStep src i
    else some (.stuck i)

/-- Reads attributes up to the end of the tag. -/
def readAttributes (src : Text) (i : Nat) : Option (List Attribute × TagEnd × Nat) := do
  match ← tagStep src (Text.skipBytes isTagBlank src i) with
  | .finish selfClosing next => return ([], if selfClosing then .closedItself else .opened, next)
  | .stuck here => return ([], .unterminated, here)
  | .comment next => if _ : i < next ∧ next ≤ src.size then readAttributes src next else none
  | .attribute a next =>
    if _ : i < next ∧ next ≤ src.size then do
      let (as, e, last) ← readAttributes src next
      return (a :: as, e, last)
    else none
termination_by src.size - i

/-- The opening tag of which the `<` stands at an offset, if a tag name follows. -/
def readOpeningTag (src : Text) (lt : Nat) : Option (Option Element) := do
  let start := lt + 1
  let stop := Text.skipBytes isNameChar src start
  if stop = start ∨ ¬ (src.at? start).any Char.isAlpha then return none
  else
    let (attributes, e, last) ← readAttributes src stop
    return some { tag := ⟨lt, min last src.size⟩
                  name := ⟨start, stop⟩
                  attributes
                  selfClosing := e == .closedItself
                  terminated := e != .unterminated
                  closing := none
                  children := if e == .closedItself then .selfClosing else .unclosed }

/-! ### Characters of tags -/

theorem isAlphanum_of_le {c : Char} (h : 128 ≤ c.toNat) : c.isAlphanum = false := by
  have hn : c.val.toNat = c.toNat := rfl
  unfold Char.isAlphanum Char.isAlpha Char.isUpper Char.isLower Char.isDigit
  simp only [ge_iff_le, UInt32.le_iff_toNat_le, Bool.or_eq_false_iff, Bool.and_eq_false_imp,
    decide_eq_true_eq, decide_eq_false_iff_not]
  have h1 : ('Z' : Char).val.toNat = 90 := rfl
  have h2 : ('z' : Char).val.toNat = 122 := rfl
  have h3 : ('9' : Char).val.toNat = 57 := rfl
  omega

theorem isAlpha_of_le (c : Char) (h : 128 ≤ c.toNat) : c.isAlpha = false := by
  have halnum := isAlphanum_of_le h
  rw [Char.isAlphanum, Bool.or_eq_false_iff] at halnum
  exact halnum.1

theorem isNameChar_of_le (c : Char) (h : 128 ≤ c.toNat) : isNameChar c = false := by
  have hne : ∀ d : Char, d.toNat < 128 → (c == d) = false := fun _ => beq_of_le h
  rw [isNameChar, isAlphanum_of_le h, hne _ (by decide), hne _ (by decide), hne _ (by decide),
    hne _ (by decide)]
  rfl

theorem isTagBlank_of_le (c : Char) (h : 128 ≤ c.toNat) : isTagBlank c = false := by
  have hne : ∀ d : Char, d.toNat < 128 → (c == d) = false := fun _ => beq_of_le h
  rw [isTagBlank, hne _ (by decide), hne _ (by decide), hne _ (by decide), hne _ (by decide),
    hne _ (by decide)]
  rfl

/-! ### Values -/

section

variable {src us cs rest : Text} {c d : Char} {o : Nat} {k l : Cursor}

theorem slice?_inside (hc : c.utf8Size = 1) (hd : d.utf8Size = 1) :
    Text.slice? (c :: (us ++ [d])) 1 (Text.size (c :: (us ++ [d])) - 1) = some us := by
  have hstart := Cursor.in_start (c :: (us ++ [d]))
  have hk : Cursor.In (c :: (us ++ [d])) ⟨1, us ++ [d]⟩ := by
    have hnext := hstart.passes (Cursor.passes_one 0 c (us ++ [d]))
    rwa [hc] at hnext
  have hp : Cursor.Passes ⟨1, us ++ [d]⟩ us ⟨1 + us.size, [d]⟩ := ⟨rfl, rfl⟩
  have hoff : Text.size (c :: (us ++ [d])) - 1 = 1 + us.size := by
    simp only [Text.size_cons, Text.size_append, Text.size_nil, hc, hd]
    omega
  rw [hoff]
  exact Text.slice?_eq hk hp

/-- A scanner that starts behind the first byte comes to the end of a text if and only if it uses
all of what it is given. -/
theorem map_offset_eq_size_iff {f : Nat → Option Cursor} {P : Text → Text → Prop}
    (hf : ∀ o k, f o = some k ↔ ∃ us, P k.rest us ∧ Cursor.Passes ⟨o, cs⟩ us k) (o : Nat) :
    (f o).map Cursor.offset = some (o + cs.size) ↔ P [] cs := by
  rw [Option.map_eq_some_iff]
  constructor
  · rintro ⟨k, hk, ho⟩
    obtain ⟨us, hus, hr, ho'⟩ := (hf o k).mp hk
    simp only at hr ho'
    have hrest : k.rest = [] := by
      rw [← Text.size_eq_zero]
      have hsize : cs.size = us.size + k.rest.size := by rw [← Text.size_append, ← hr]
      omega
    rw [hrest, List.append_nil] at hr
    rwa [hrest, ← hr] at hus
  · intro h
    exact ⟨⟨o + cs.size, []⟩, (hf o _).mpr ⟨cs, h, by simp, rfl⟩, rfl⟩

theorem any_rest_iff {f : Nat → Option Cursor} {P : Text → Text → Prop}
    (hf : ∀ o k, f o = some k ↔ ∃ us, P k.rest us ∧ Cursor.Passes ⟨o, cs⟩ us k) (o : Nat) :
    (f o).any (·.rest == []) ↔ P [] cs := by
  rw [Option.any_eq_true]
  constructor
  · rintro ⟨k, hk, hrest⟩
    rw [beq_iff_eq] at hrest
    obtain ⟨us, hus, hr, -⟩ := (hf o k).mp hk
    simp only [hrest, List.append_nil] at hr
    rwa [hrest, ← hr] at hus
  · intro h
    exact ⟨⟨o + cs.size, []⟩, (hf o _).mpr ⟨cs, h, by simp, rfl⟩, rfl⟩

theorem expressionValue_quoted (hq : c = '"' ∨ c = '\'') :
    expressionValue (c :: cs) = some (Markup.expressionValue (c :: cs)) := by
  have hascii : c.toNat < 128 := by rcases hq with rfl | rfl <;> decide
  have hone := Text.utf8Size_of_lt hascii
  have hx : Text.at? (c :: cs) 0 = some c := Text.at?_eq_some (Cursor.in_start _) rfl hascii
  have hnext : Cursor.In (c :: cs) ⟨1, cs⟩ := by
    have := in_next (Cursor.in_start (c :: cs))
    rwa [hone] at this
  have hsize : Text.size (c :: cs) = 1 + cs.size := by rw [Text.size_cons, hone]
  have hf : ∀ o k, Markup.closeQuote c o cs = some k ↔
      ∃ us, (∃ vs, Markup.Quoted c vs ∧ us = vs ++ [c]) ∧ Cursor.Passes ⟨o, cs⟩ us k := by
    intro o k
    rw [Markup.closeQuote_eq_some hq]
    constructor
    · rintro ⟨vs, hv, hp⟩
      exact ⟨_, ⟨vs, hv, rfl⟩, hp⟩
    · rintro ⟨_, ⟨vs, hv, rfl⟩, hp⟩
      exact ⟨vs, hv, hp⟩
  -- both look whether the string that begins here is all of the text
  have hbytes := map_offset_eq_size_iff (P := fun _ us => ∃ vs, Markup.Quoted c vs ∧ us = vs ++ [c])
    hf 1
  have hchars := any_rest_iff (P := fun _ us => ∃ vs, Markup.Quoted c vs ∧ us = vs ++ [c]) hf 0
  rw [← stringEnd_eq hascii hnext, ← hsize] at hbytes
  have hmodel : (c == '"' || c == '\'') = true := by simpa using hq
  rw [expressionValue, hx]
  simp only [if_pos hq, Markup.expressionValue, hmodel, if_true]
  by_cases hend : ∃ vs, Markup.Quoted c vs ∧ cs = vs ++ [c]
  · rw [if_pos (hbytes.mpr hend), if_pos (hchars.mpr hend)]
    obtain ⟨vs, -, rfl⟩ := hend
    rw [slice?_inside hone hone, List.dropLast_concat]
    rfl
  · rw [if_neg (mt hbytes.mp hend), if_neg (mt hchars.mp hend)]

theorem expressionValue_template :
    expressionValue (backtick :: cs) = some (Markup.expressionValue (backtick :: cs)) := by
  have hx : Text.at? (backtick :: cs) 0 = some backtick :=
    Text.at?_eq_some (Cursor.in_start _) rfl (by decide)
  have hnext : Cursor.In (backtick :: cs) ⟨1, cs⟩ := in_next (Cursor.in_start (backtick :: cs))
  have hsize : Text.size (backtick :: cs) = 1 + cs.size := rfl
  have hf : ∀ o k, Markup.templateEnd ⟨o, cs⟩ = some k ↔
      ∃ us, Enclosed k.rest [.template] us ∧ Cursor.Passes ⟨o, cs⟩ us k :=
    fun o k => Markup.templateEnd_eq_some
  have hbytes := map_offset_eq_size_iff (P := fun rest us => Enclosed rest [.template] us) hf 1
  have hchars := any_rest_iff (P := fun rest us => Enclosed rest [.template] us) hf 0
  have htemplate : templateEnd (backtick :: cs) 1 =
      some ((Markup.templateEnd ⟨1, cs⟩).map Cursor.offset) := templateEnd_eq hnext
  rw [← hsize] at hbytes
  have hquote : ¬ (backtick = '"' ∨ backtick = '\'') := by decide
  have hmodel : (backtick == '"' || backtick == '\'') = false := by decide
  rw [expressionValue, hx]
  simp only [if_neg hquote, if_true, htemplate, Option.bind_eq_bind, Option.bind_some,
    Markup.expressionValue, hmodel, Bool.false_eq_true, if_false, beq_self_eq_true]
  by_cases hend : Enclosed [] [.template] cs
  · rw [if_pos (hbytes.mpr hend), if_pos (hchars.mpr hend)]
    obtain ⟨vs, d, rfl, hd⟩ := hend.exists_last (by simp)
    have hone : d.utf8Size = 1 := Markup.utf8Size_closer hd
    rw [slice?_inside rfl hone, List.dropLast_concat]
    split_ifs <;> rfl
  · rw [if_neg (mt hbytes.mp hend), if_neg (mt hchars.mp hend)]
    rfl

/-- **An attribute's expression is classified byte by byte.** -/
theorem expressionValue_eq (inner : Text) :
    expressionValue inner = some (Markup.expressionValue inner) := by
  rcases inner with _ | ⟨c, cs⟩
  · rfl
  by_cases hq : c = '"' ∨ c = '\''
  · exact expressionValue_quoted hq
  by_cases hb : c = backtick
  · subst hb
    exact expressionValue_template
  have hmodel : (c == '"' || c == '\'') = false := by simpa using hq
  have hmodel' : (c == backtick) = false := by simpa using hb
  rw [not_or] at hq
  rw [expressionValue]
  simp only [Markup.expressionValue, hmodel, hmodel', Bool.false_eq_true, if_false]
  cases hx : Text.at? (c :: cs) 0 with
  | none => rfl
  | some x =>
    have hne : ∀ d : Char, d.toNat < 128 → c ≠ d → x ≠ d := fun d hd =>
      mt (Text.eq_iff_of_at? (Cursor.in_start (c :: cs)) rfl hd hx).mp
    simp only [hne _ (by decide) hq.1, hne _ (by decide) hq.2, hne _ (by decide) hb, or_self,
      if_false]

theorem slice?_inBraces (hk : Cursor.In src ⟨o, '\x7b' :: rest⟩)
    (hend : Markup.expressionEnd ⟨o, '\x7b' :: rest⟩ = some l) :
    ∃ us, src.slice? (o + 1) (l.offset - 1) = some us ∧
      Text.trim us = Markup.insideBraces ⟨o, '\x7b' :: rest⟩ l := by
  obtain ⟨e, he, hp⟩ := Markup.expressionEnd_cons.mp hend
  obtain ⟨us, d, hd, hrest, hoff⟩ := Markup.exists_inside hend
  have hone : d.utf8Size = 1 := Markup.utf8Size_closer hd
  have he' : e = us ++ [d] := by
    have hsame : e ++ l.rest = us ++ [d] ++ l.rest := by
      have := hp.1
      rw [List.cons_append, List.cons.injEq] at this
      rw [← this.2, hrest, List.append_assoc]
      rfl
    exact List.append_cancel_right hsame
  have hin : Cursor.Passes ⟨o + 1, rest⟩ us ⟨o + 1 + us.size, d :: l.rest⟩ := ⟨hrest, rfl⟩
  refine ⟨us, ?_, ?_⟩
  · have hslice := Text.slice?_eq (in_next hk) hin
    rw [hoff, Nat.add_sub_cancel]
    exact hslice
  · rw [Markup.insideBraces_eq hp, he', List.dropLast_concat]

/-! ### Steps -/

theorem braceStep_eq (hk : Cursor.In src ⟨o, '\x7b' :: rest⟩) :
    braceStep src o = some (.ofTagStep (Markup.braceStep ⟨o, '\x7b' :: rest⟩)) := by
  rw [braceStep, expressionEnd_eq hk, Markup.braceStep]
  cases hend : Markup.expressionEnd ⟨o, '\x7b' :: rest⟩ with
  | none => rfl
  | some l =>
    obtain ⟨us, hslice, htrim⟩ := slice?_inBraces hk hend
    simp only [Option.map_some, Option.bind_eq_bind, Option.bind_some, hslice, htrim]
    split_ifs <;> rfl

theorem readValue_quoted (hq : c = '"' ∨ c = '\'') (hk : Cursor.In src ⟨o, c :: rest⟩) :
    readValue src o = some ((Markup.readValue ⟨o, c :: rest⟩).map fun p => (p.1, p.2.offset)) := by
  have hascii : c.toNat < 128 := by rcases hq with rfl | rfl <;> decide
  have hmodel : (c == '"' || c == '\'') = true := by simpa using hq
  have hx : src.at? o = some c := Text.at?_eq_some hk rfl hascii
  have hone := Text.utf8Size_of_lt hascii
  have hnext := in_next hk
  rw [hone] at hnext
  have hvalue : Markup.readValue ⟨o, c :: rest⟩ =
      (Cursor.find [c] ⟨o + 1, rest⟩).map fun l =>
        (.literal (String.ofList (Cursor.upTo ⟨o + 1, rest⟩ l)), l.skip 1) := by
    unfold Markup.readValue
    split
    · next h =>
      obtain ⟨rfl, -⟩ := List.cons.inj h
      exact absurd hq (by decide)
    · next h =>
      obtain ⟨rfl, rfl⟩ := List.cons.inj h
      rw [if_pos hmodel]
    · next h => cases h
  rw [readValue, hx, hvalue]
  simp only [if_pos hq, Text.from?_eq hnext, Option.bind_eq_bind, Option.bind_some]
  cases hl : Cursor.find [c] ⟨o + 1, rest⟩ with
  | none =>
    rw [Text.find?_of_find_none hl]
    rfl
  | some l =>
    obtain ⟨us, hus, hhead, -⟩ := Markup.find_quote.mp hl
    obtain ⟨ds, hds⟩ := List.head?_eq_some_iff.mp hhead
    obtain ⟨n, hn, hoff⟩ := Text.find?_of_find hl
    have hskip : (l.skip 1).offset = l.offset + 1 := by
      have hpass := (Cursor.skip_passes 1 l).2
      rw [hds] at hpass
      rw [hpass]
      show l.offset + (c.utf8Size + 0) = l.offset + 1
      rw [hone]
    have hslice := Text.slice?_eq hnext hus
    simp only at hn hoff hslice
    simp only [hn, Nat.add_sub_cancel, hoff, hslice, Option.bind_some, hus.upTo_eq, hskip,
      Option.map_some]
    rfl

theorem readValue_braces (hk : Cursor.In src ⟨o, '\x7b' :: rest⟩) : readValue src o =
    some ((Markup.readValue ⟨o, '\x7b' :: rest⟩).map fun p => (p.1, p.2.offset)) := by
  have hx : src.at? o = some '\x7b' := Text.at?_eq_some hk rfl (by decide)
  have hquote : ¬ ('\x7b' = '"' ∨ '\x7b' = '\'') := by decide
  rw [readValue, hx]
  simp only [if_neg hquote, if_true, expressionEnd_eq hk, Option.bind_eq_bind, Option.bind_some,
    Markup.readValue]
  cases hend : Markup.expressionEnd ⟨o, '\x7b' :: rest⟩ with
  | none => rfl
  | some l =>
    obtain ⟨us, hslice, htrim⟩ := slice?_inBraces hk hend
    simp only [Option.map_some, Option.bind_some, hslice, htrim, expressionValue_eq]
    rfl

theorem readValue_eq (hk : k.In src) :
    readValue src k.offset = some ((Markup.readValue k).map fun p => (p.1, p.2.offset)) := by
  obtain ⟨o, _ | ⟨c, rest⟩⟩ := k
  · rw [readValue, Text.at?_eq_none hk rfl]
    rfl
  by_cases hq : c = '"' ∨ c = '\''
  · exact readValue_quoted hq hk
  by_cases hbrace : c = '\x7b'
  · subst hbrace
    exact readValue_braces hk
  have hvalue : Markup.readValue ⟨o, c :: rest⟩ = none := by
    unfold Markup.readValue
    split
    · next h => exact absurd (List.cons.inj h).1 hbrace
    · next h =>
      obtain ⟨rfl, -⟩ := List.cons.inj h
      rw [if_neg (by simpa using hq)]
    · rfl
  rw [not_or] at hq
  rw [readValue, hvalue]
  cases hx : src.at? o with
  | none => rfl
  | some x =>
    have hne : ∀ d : Char, d.toNat < 128 → c ≠ d → x ≠ d := fun d hd =>
      mt (Text.eq_iff_of_at? hk rfl hd hx).mp
    simp only [hne _ (by decide) hq.1, hne _ (by decide) hq.2, hne _ (by decide) hbrace, or_self,
      if_false]
    rfl

theorem nameStep_eq (hk : k.In src) :
    nameStep src k.offset = some (.ofTagStep (Markup.nameStep k)) := by
  have hname := Cursor.skipWhile_passes isNameChar k
  have hj := Text.skipBytes_eq isNameChar_of_le hk
  have hslice := Text.slice?_eq hk hname
  have hl := hk.passes hname
  have hblanks := Cursor.skipWhile_passes isTagBlank (k.skipWhile isNameChar)
  have hm := Text.skipBytes_eq isTagBlank_of_le hl
  have hin := hl.passes hblanks
  have hsign := Text.at?_eq_some_iff hin (c := '=') (by decide)
  rw [nameStep, Markup.nameStep]
  simp only [hj, hslice, hm, Option.bind_eq_bind, Option.bind_some, hname.upTo_eq]
  generalize (k.skipWhile isNameChar).skipWhile isTagBlank = m at hin hsign
  obtain ⟨o, rest⟩ := m
  by_cases hhead : rest.head? = some '='
  · obtain ⟨ds, rfl⟩ := List.head?_eq_some_iff.mp hhead
    have hafter : Cursor.In src ⟨o + 1, ds⟩ := in_next hin
    have hv := Text.skipBytes_eq isTagBlank_of_le hafter
    have hread := readValue_eq (hafter.passes (Cursor.skipWhile_passes isTagBlank ⟨o + 1, ds⟩))
    simp only at hv hread
    simp only [if_pos (hsign.mpr rfl), hv, hread, Option.bind_some]
    cases Markup.readValue (Cursor.skipWhile isTagBlank ⟨o + 1, ds⟩) <;> rfl
  · simp only [if_neg (mt hsign.mp hhead)]
    split
    · exact absurd rfl hhead
    · rfl

theorem tagStep_of_le (hk : Cursor.In src ⟨o, c :: rest⟩) (hge : 128 ≤ c.toNat) :
    tagStep src o = some (.ofTagStep (Markup.tagStep ⟨o, c :: rest⟩)) := by
  obtain ⟨x, hx, hxge⟩ := Text.exists_at? hk rfl c.utf8Size_pos hge
  rw [Nat.add_zero] at hx
  have hne : ∀ d : Char, d.toNat < 128 → x ≠ d := fun _ => ne_of_le hxge
  have hmodel : Markup.tagStep ⟨o, c :: rest⟩ = .stuck ⟨o, c :: rest⟩ := by
    unfold Markup.tagStep
    split
    · next h => cases h
    · next h => exact absurd (List.cons.inj h).1 (ne_of_le hge (by decide))
    · next h =>
      obtain ⟨rfl, rfl⟩ := List.cons.inj h
      simp only [beq_iff_eq]
      rw [if_neg (ne_of_le hge (by decide)), if_neg (ne_of_le hge (by decide)),
        isNameChar_of_le _ hge]
      rfl
  rw [tagStep, hmodel]
  simp only at hx
  simp only [hx, hne _ (show '/'.toNat < 128 by decide), hne _ (show '>'.toNat < 128 by decide),
    hne _ (show '\x7b'.toNat < 128 by decide), isNameChar_of_le _ hxge, false_and, if_false,
    Bool.false_eq_true]
  rfl

/-- **A step inside an opening tag is taken byte by byte.** -/
theorem tagStep_eq (hk : k.In src) :
    tagStep src k.offset = some (.ofTagStep (Markup.tagStep k)) := by
  obtain ⟨o, _ | ⟨c, rest⟩⟩ := k
  · rw [tagStep, Text.at?_eq_none hk rfl]
    rfl
  by_cases hascii : c.toNat < 128
  · have hx : src.at? o = some c := Text.at?_eq_some hk rfl hascii
    have hnext := in_next hk
    rw [Text.utf8Size_of_lt hascii] at hnext
    have hmark := Text.at?_eq_some_iff hnext (c := '>') (by decide)
    simp only at hmark
    rw [tagStep, hx]
    simp only [hmark]
    by_cases hself : c = '/' ∧ rest.head? = some '>'
    · obtain ⟨rfl, hhead⟩ := hself
      obtain ⟨ds, rfl⟩ := List.head?_eq_some_iff.mp hhead
      rfl
    · have hmodel : Markup.tagStep ⟨o, c :: rest⟩ =
          if c == '>' then .finish false ⟨o + 1, rest⟩
          else if c == '\x7b' then Markup.braceStep ⟨o, c :: rest⟩
          else if isNameChar c then Markup.nameStep ⟨o, c :: rest⟩
          else .stuck ⟨o, c :: rest⟩ := by
        unfold Markup.tagStep
        split
        · next h => cases h
        · next h =>
          obtain ⟨rfl, rfl⟩ := List.cons.inj h
          exact absurd ⟨rfl, rfl⟩ hself
        · next h =>
          obtain ⟨rfl, rfl⟩ := List.cons.inj h
          rfl
      rw [if_neg hself, hmodel]
      simp only [beq_iff_eq]
      split_ifs with hgt hbrace hname
      · rfl
      · subst hbrace
        exact braceStep_eq hk
      · exact nameStep_eq hk
      · rfl
  · exact tagStep_of_le hk (Nat.le_of_not_lt hascii)

/-! ### The whole tag -/

theorem readAttributes_eq {fuel : Nat} (hk : k.In src) (hf : k.rest.length < fuel) :
    readAttributes src k.offset =
      some ((Markup.readAttributes fuel k).1, (Markup.readAttributes fuel k).2.1,
        (Markup.readAttributes fuel k).2.2.offset) := by
  induction fuel generalizing k with
  | zero => omega
  | succ fuel ih =>
    have hblanks := Cursor.skipWhile_passes isTagBlank k
    rw [readAttributes, Text.skipBytes_eq isTagBlank_of_le hk, tagStep_eq (hk.passes hblanks),
      Markup.readAttributes]
    simp only [Option.bind_eq_bind, Option.bind_some]
    rcases hstep : Markup.tagStep (k.skipWhile isTagBlank) with _ | ⟨a, next⟩ | next | _
    · rfl
    · obtain ⟨bs, us, -, hpiece, hp, -⟩ := Markup.exists_piece_of_attribute hstep
      have hlen := Markup.length_lt_of_piece hpiece hp
      have hahead := hk.ahead hp (by simp [hpiece.ne_nil])
      have hread := ih (hk.passes hp) (by omega)
      simp only [Step.ofTagStep, dif_pos hahead, hread, Option.bind_some]
      rfl
    · obtain ⟨bs, us, -, hpiece, hp⟩ := Markup.exists_piece_of_comment hstep
      have hlen := Markup.length_lt_of_piece hpiece hp
      have hahead := hk.ahead hp (by simp [hpiece.ne_nil])
      simp only [Step.ofTagStep, dif_pos hahead]
      exact ih (hk.passes hp) (by omega)
    · rfl

/-- **An opening tag is read byte by byte**, without a wrong cut. -/
theorem readOpeningTag_eq (hk : Cursor.In src ⟨o, '<' :: rest⟩) :
    readOpeningTag src o =
      some ((Markup.readOpeningTag ⟨o, '<' :: rest⟩).map Prod.fst) := by
  have hnext : Cursor.In src ⟨o + 1, rest⟩ := in_next hk
  have hletter := Text.any_at? isAlpha_of_le hnext
  have hstop := Text.skipBytes_eq isNameChar_of_le hnext
  have hname := Cursor.skipWhile_passes isNameChar ⟨o + 1, rest⟩
  simp only at hletter hstop hname
  rw [readOpeningTag]
  simp only [hletter, hstop]
  by_cases halpha : rest.head?.any Char.isAlpha
  · obtain ⟨c, hc, hca⟩ : ∃ c, rest.head? = some c ∧ c.isAlpha := by
      rwa [Option.any_eq_true] at halpha
    obtain ⟨cs, rfl⟩ := List.head?_eq_some_iff.mp hc
    have hne : (c :: cs).takeWhile isNameChar ≠ [] := by
      rw [List.takeWhile_cons, if_pos (Markup.isNameChar_of_isAlpha hca)]
      exact List.cons_ne_nil _ _
    have hlt := hname.lt hne
    have hp := hnext.passes hname
    simp only at hlt
    have hone : ('<'.utf8Size != 1) = false := rfl
    rw [if_neg (by rw [not_or, not_not]; exact ⟨Nat.ne_of_gt hlt, halpha⟩), Markup.readOpeningTag]
    simp only [hone, hca, Bool.not_true, Bool.or_false, Bool.false_eq_true, if_false]
    generalize Cursor.skipWhile isNameChar ⟨o + 1, c :: cs⟩ = p at hp ⊢
    rw [readAttributes_eq hp (Nat.lt_succ_self _)]
    rcases hread : Markup.readAttributes (p.rest.length + 1) p with ⟨as, te, last⟩
    obtain ⟨m, hreads, hends⟩ := (Markup.readAttributes_eq (Nat.lt_succ_self _)).mp hread
    obtain ⟨us, hus, -⟩ := hreads.exists_passes
    obtain ⟨vs, hvs⟩ := hends.exists_passes
    have hlast := (hp.passes hus).passes hvs
    simp only [Option.bind_eq_bind, Option.bind_some, Nat.min_eq_left hlast.le_size]
    rfl
  · rw [if_pos (Or.inr halpha)]
    rcases rest with _ | ⟨c, cs⟩
    · rfl
    · have hca : c.isAlpha = false := by simpa using halpha
      simp [Markup.readOpeningTag, hca]

end

end DesignLint.Bytewise
