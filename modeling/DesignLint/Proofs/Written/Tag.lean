import DesignLint.Proofs.Markup.OpeningTag
import DesignLint.Proofs.Written.Code

/-!
# Opening tags as they are written

A `WrittenTag` is an opening tag as an author writes it: a name, attributes with blanks in front of
each, and blanks in front of the end. An attribute is a flag, has a quoted constant or code in
braces as its value, or spreads code. `WrittenTag.text` is what is written, and
`WrittenTag.element` what is to be read from it at an offset.

Reading undoes writing: each attribute is a piece of the tag (`WrittenAttribute.tagPiece`), so that
all attributes are read one behind the other (`reads_attributesText`) and then the end of the tag,
whatever stands around it (`readOpeningTag_text`).
-/

namespace DesignLint.Markup

/-- A name of an attribute. -/
abbrev Name : Type := { us : Text // IsName us }

/-- A name of a tag. -/
abbrev TagName : Type := { us : Text // IsTag us }

/-- One or more blanks. -/
abbrev Gap : Type := { us : Text // us ≠ [] ∧ Blanks us }

/-- A constant in quotes that do not occur in it. -/
structure Quotation where
  quote : Char
  inside : Text
  isQuote : quote = '"' ∨ quote = '\''
  closed : quote ∉ inside

/-- The text of a constant with its quotes. -/
def Quotation.text (v : Quotation) : Text := v.quote :: (v.inside ++ [v.quote])

/-- An attribute. -/
inductive WrittenAttribute
  | flag (name : Name)
  | quoted (name : Name) (value : Quotation)
  | braces (name : Name) (e : Code .brace)
  | spread (e : Code .brace)

namespace WrittenAttribute

/-- The text of an attribute. -/
def text : WrittenAttribute → Text
  | flag name => name.val
  | quoted name value => name.val ++ '=' :: value.text
  | braces name e => name.val ++ '=' :: e.inBraces
  | spread e => '\x7b' :: '.' :: '.' :: '.' :: (e.text ++ ['\x7d'])

/-- The name and the value that an attribute is to be read with. -/
def content : WrittenAttribute → String × AttributeValue
  | flag name => (String.ofList name.val, .flag)
  | quoted name value => (String.ofList name.val, .literal (String.ofList value.inside))
  | braces name e => (String.ofList name.val, expressionValue (Text.trim e.text))
  | spread e => ("...", .spread (String.ofList (Text.trim e.text)))

end WrittenAttribute

/-- The text of some attributes, with the blanks in front of each. -/
def attributesText (as : List (Gap × WrittenAttribute)) : Text :=
  as.flatMap fun (gap, a) => gap.val ++ a.text

@[simp] theorem attributesText_nil : attributesText [] = [] := rfl

@[simp] theorem attributesText_cons (gap : Gap) (a : WrittenAttribute)
    (as : List (Gap × WrittenAttribute)) :
    attributesText ((gap, a) :: as) = gap.val ++ (a.text ++ attributesText as) := by
  simp [attributesText]

/-- The attributes that are to be read from an offset on. -/
def attributesFrom (o : Nat) : List (Gap × WrittenAttribute) → List Attribute
  | [] => []
  | (gap, a) :: as =>
    let start := o + Text.size gap.val
    let stop := start + Text.size a.text
    ⟨a.content.1, a.content.2, ⟨start, stop⟩⟩ :: attributesFrom stop as

/-- The end of an opening tag. -/
def tagEnd (selfClosing : Bool) : Text := if selfClosing then ['/', '>'] else ['>']

/-- An opening tag. -/
structure WrittenTag where
  name : TagName
  attributes : List (Gap × WrittenAttribute)
  blanks : { us : Text // Blanks us }

namespace WrittenTag

/-- What stands behind the name of an opening tag. -/
def rest (t : WrittenTag) (selfClosing : Bool) : Text :=
  attributesText t.attributes ++ (t.blanks.val ++ tagEnd selfClosing)

/-- The text of an opening tag. -/
def text (t : WrittenTag) (selfClosing : Bool) : Text := '<' :: (t.name.val ++ t.rest selfClosing)

/-- What is to be read from an opening tag at an offset. -/
def element (t : WrittenTag) (selfClosing : Bool) (o : Nat) : Element where
  tag := ⟨o, o + Text.size (t.text selfClosing)⟩
  name := ⟨o + 1, o + 1 + Text.size t.name.val⟩
  attributes := attributesFrom (o + 1 + Text.size t.name.val) t.attributes
  selfClosing
  terminated := true
  closing := none
  children := if selfClosing then .selfClosing else .unclosed

end WrittenTag

/-! ### One attribute -/

/-- A flag ends in front of this text. -/
def EndsFlag (after : Text) : Prop :=
  (∀ c ∈ after.head?, ¬ isNameChar c) ∧ ∀ c ∈ (after.dropWhile isTagBlank).head?, c ≠ '='

theorem trim_dots (us : Text) :
    Text.trim ('.' :: '.' :: '.' :: us) = '.' :: '.' :: '.' :: Text.trimEnd us := by
  have hstart : Text.trimStart ('.' :: '.' :: '.' :: us) = ['.', '.', '.'] ++ us :=
    List.dropWhile_cons_of_neg (by decide)
  rw [Text.trim, hstart, Text.trimEnd_append ⟨'.', rfl, by decide⟩]
  rfl

theorem tagPiece_valued {after name us : Text} {v : AttributeValue} (hname : IsName name)
    (hvalue : ValueText after us v) :
    TagPiece after (name ++ '=' :: us) (some (String.ofList name, v)) := by
  have hnil : Blanks [] := by simp [Blanks]
  exact .valued hname hnil hnil hvalue

/-- **An attribute is a piece of a tag.** -/
theorem WrittenAttribute.tagPiece (a : WrittenAttribute) {after : Text} (h : EndsFlag after) :
    TagPiece after a.text (some a.content) := by
  cases a with
  | flag name => exact .flag name.property h.1 h.2
  | quoted name value =>
    exact tagPiece_valued name.property (.quoted value.isQuote value.closed)
  | braces name e =>
    have hvalue := ValueText.expression (e.enclosed_braces after)
    rw [List.dropLast_concat] at hvalue
    exact tagPiece_valued name.property hvalue
  | spread e =>
    -- the dots are characters of code
    have henc := (Code.plain ⟨'.', by decide⟩
      (.plain ⟨'.', by decide⟩ (.plain ⟨'.', by decide⟩ e))).enclosed_braces after
    have htrim := trim_dots e.text
    have hpiece := TagPiece.spread henc
    simp only [Code.text, List.dropLast_concat, htrim] at hpiece
    have := hpiece ⟨_, rfl⟩
    rw [List.drop_succ_cons, List.drop_succ_cons, List.drop_succ_cons, List.drop_zero,
      Text.trim_trimEnd] at this
    exact this

theorem WrittenAttribute.exists_head (a : WrittenAttribute) :
    ∃ c us, a.text = c :: us ∧ ¬ isTagBlank c ∧ c ≠ '=' := by
  have hname : ∀ name : Name, ∃ c us, name.val = c :: us ∧ ¬ isTagBlank c ∧ c ≠ '=' := by
    rintro ⟨us, hus⟩
    obtain ⟨c, us, rfl⟩ := List.exists_cons_of_ne_nil hus.1
    have hc := hus.2 c (by simp)
    exact ⟨c, us, rfl, fun hb => not_isNameChar_of_isTagBlank hb hc,
      fun he => absurd hc (by rw [he]; decide)⟩
  cases a with
  | flag name => exact hname name
  | quoted name value =>
    obtain ⟨c, us, hus, hc⟩ := hname name
    exact ⟨c, us ++ '=' :: value.text, by rw [text, hus]; rfl, hc⟩
  | braces name e =>
    obtain ⟨c, us, hus, hc⟩ := hname name
    exact ⟨c, us ++ '=' :: e.inBraces, by rw [text, hus]; rfl, hc⟩
  | spread e => exact ⟨_, _, rfl, by decide, by decide⟩

/-! ### All attributes -/

theorem endsFlag_of_blanks {bs us : Text} (hb : Blanks bs)
    (hne : bs ≠ [] ∨ ∀ c ∈ us.head?, ¬ isNameChar c)
    (hu : ∀ c ∈ us.head?, ¬ isTagBlank c ∧ c ≠ '=') : EndsFlag (bs ++ us) := by
  constructor
  · cases bs with
    | nil => simpa using hne
    | cons b bs =>
      intro c hc
      obtain rfl : b = c := by simpa using hc
      exact not_isNameChar_of_isTagBlank (hb b (by simp))
  · rw [List.dropWhile_append_of_pos hb]
    intro c hc
    cases us with
    | nil => simp at hc
    | cons u us =>
      have hblank := (hu u rfl).1
      rw [List.dropWhile_cons_of_neg hblank] at hc
      exact (hu c hc).2

theorem exists_tagEnd (selfClosing : Bool) (after : Text) :
    ∀ c ∈ (tagEnd selfClosing ++ after).head?, ¬ isNameChar c ∧ ¬ isTagBlank c ∧ c ≠ '=' := by
  cases selfClosing <;> simp [tagEnd] <;> decide

theorem endsFlag_attributesText (as : List (Gap × WrittenAttribute)) {bs : Text} (hb : Blanks bs)
    (selfClosing : Bool) (after : Text) :
    EndsFlag (attributesText as ++ (bs ++ tagEnd selfClosing ++ after)) := by
  cases as with
  | nil =>
    have hend := exists_tagEnd selfClosing after
    rw [attributesText_nil, List.nil_append, List.append_assoc]
    exact endsFlag_of_blanks hb (Or.inr fun c hc => (hend c hc).1) fun c hc => (hend c hc).2
  | cons x as =>
    obtain ⟨gap, a⟩ := x
    obtain ⟨c, us, hus, hc⟩ := a.exists_head
    rw [attributesText_cons, hus, List.append_assoc, List.append_assoc]
    refine endsFlag_of_blanks gap.property.2 (Or.inl gap.property.1) ?_
    rintro d hd
    obtain rfl : c = d := by simpa using hd
    exact hc

theorem reads_attributesText (as : List (Gap × WrittenAttribute)) {bs : Text} (hb : Blanks bs)
    (selfClosing : Bool) (after : Text) (o : Nat) :
    Reads ⟨o, attributesText as ++ (bs ++ tagEnd selfClosing ++ after)⟩ (attributesFrom o as)
      ⟨o + Text.size (attributesText as), bs ++ tagEnd selfClosing ++ after⟩ := by
  induction as generalizing o with
  | nil => exact .done _
  | cons x as ih =>
    obtain ⟨gap, a⟩ := x
    have hpiece := a.tagPiece (endsFlag_attributesText as hb selfClosing after)
    have hstep := hpiece.step_eq
      (k := ⟨o, attributesText ((gap, a) :: as) ++ (bs ++ tagEnd selfClosing ++ after)⟩)
      (l := ⟨o + Text.size gap.val + Text.size a.text,
        attributesText as ++ (bs ++ tagEnd selfClosing ++ after)⟩) gap.property.2
      ⟨by simp, by simp only [Text.size_append, Nat.add_assoc]⟩
    have hmore := Reads.more hstep (ih _)
    rw [attributesText_cons, Text.size_append, Text.size_append, ← Nat.add_assoc, ← Nat.add_assoc]
    rw [attributesText_cons] at hmore
    exact hmore

theorem ends_tagEnd {bs : Text} (hb : Blanks bs) (selfClosing : Bool) (after : Text) (o : Nat) :
    Ends ⟨o, bs ++ tagEnd selfClosing ++ after⟩ (if selfClosing then .closedItself else .opened)
      ⟨o + Text.size (bs ++ tagEnd selfClosing), after⟩ := by
  refine .finish (tagStep_eq_finish.mpr ?_)
  rw [List.append_assoc,
    Cursor.skipWhile_append hb fun c hc => (exists_tagEnd selfClosing after c hc).2.1]
  exact ⟨rfl, by rw [Text.size_append, Nat.add_assoc]; rfl⟩

/-! ### The tag -/

namespace WrittenTag

theorem readOpeningTag_eq (t : WrittenTag) (selfClosing : Bool) (o : Nat) (after : Text) :
    readOpeningTag ⟨o, t.text selfClosing ++ after⟩ =
      some (t.element selfClosing o, ⟨o + Text.size (t.text selfClosing), after⟩) := by
  have hb := t.blanks.property
  have hreads := reads_attributesText t.attributes hb selfClosing after
    (o + 1 + Text.size t.name.val)
  have hends := ends_tagEnd hb selfClosing after
    (o + 1 + Text.size t.name.val + Text.size (attributesText t.attributes))
  have hsize : o + Text.size (t.text selfClosing) = o + 1 + Text.size t.name.val +
      Text.size (attributesText t.attributes) + Text.size (t.blanks.val ++ tagEnd selfClosing) := by
    have h1 : '<'.utf8Size = 1 := rfl
    simp only [text, rest, Text.size_cons, Text.size_append, h1]
    omega
  have hte : (if selfClosing then TagEnd.closedItself else .opened) ≠ .unterminated := by
    cases selfClosing <;> simp
  rw [readOpeningTag_eq_some]
  refine ⟨⟨o + 1 + Text.size t.name.val, _⟩, _, _, ⟨'<', t.name.val, rfl, t.name.property, ?_, ?_⟩,
    hreads, hsize ▸ hends, rfl, rfl, ?_, ?_, rfl, ?_⟩
  · exact (endsFlag_attributesText t.attributes hb selfClosing after).1
  · have h1 : '<'.utf8Size = 1 := rfl
    exact ⟨by simp [text, rest], by simp only [Text.size_cons, h1]; omega⟩
  · cases selfClosing <;> rfl
  · cases selfClosing <;> rfl
  · cases selfClosing <;> rfl

end WrittenTag

theorem slice_attributesFrom (before : Text) (as : List (Gap × WrittenAttribute)) (after : Text) :
    List.Forall₂ (fun a x => (before ++ (attributesText as ++ after)).slice a.span = x.2.text)
      (attributesFrom before.size as) as := by
  induction as generalizing before with
  | nil => exact .nil
  | cons x as ih =>
    obtain ⟨gap, a⟩ := x
    have hcs : before ++ (attributesText ((gap, a) :: as) ++ after) =
        before ++ gap.val ++ a.text ++ (attributesText as ++ after) := by simp
    have hfirst := Text.slice_append (before ++ gap.val) a.text (attributesText as ++ after)
    have hrest := ih (before ++ gap.val ++ a.text)
    rw [Text.size_append, Text.size_append] at hrest
    rw [Text.size_append] at hfirst
    rw [hcs]
    exact .cons hfirst hrest

/-- **Reading an opening tag undoes writing it**, whatever stands around it. -/
theorem readOpeningTag_text (before after : Text) (t : WrittenTag) (selfClosing : Bool) :
    let cs := before ++ (t.text selfClosing ++ after)
    let e := t.element selfClosing before.size
    readOpeningTag (.atOffset cs before.size) =
        some (e, ⟨before.size + Text.size (t.text selfClosing), after⟩) ∧
      cs.slice e.tag = t.text selfClosing ∧ cs.slice e.name = t.name.val ∧
      List.Forall₂ (fun a x => cs.slice a.span = x.2.text) e.attributes t.attributes := by
  intro cs e
  have hopen : cs = before ++ ['<'] ++ t.name.val ++ (t.rest selfClosing ++ after) := by
    simp [cs, WrittenTag.text]
  have h1 : Text.size (before ++ ['<']) = before.size + 1 := by
    rw [Text.size_append]
    rfl
  refine ⟨?_, ?_, ?_, ?_⟩
  · rw [Cursor.atOffset, Text.dropBytes_size_append]
    exact t.readOpeningTag_eq selfClosing before.size after
  · have := Text.slice_append before (t.text selfClosing) after
    rwa [List.append_assoc] at this
  · have := Text.slice_append (before ++ ['<']) t.name.val (t.rest selfClosing ++ after)
    rwa [← hopen, h1] at this
  · have := slice_attributesFrom (before ++ ['<'] ++ t.name.val) t.attributes
      (t.blanks.val ++ tagEnd selfClosing ++ after)
    rw [Text.size_append, h1] at this
    have hcs : cs = before ++ ['<'] ++ t.name.val ++
        (attributesText t.attributes ++ (t.blanks.val ++ tagEnd selfClosing ++ after)) := by
      simp only [hopen, WrittenTag.rest, List.append_assoc]
    rwa [← hcs] at this

end DesignLint.Markup
