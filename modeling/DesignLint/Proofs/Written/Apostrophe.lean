import DesignLint.Proofs.Written.Pairing
import Mathlib.Data.Bool.AllAny

/-!
# Apostrophes in the text of elements

`Content` is what may be written between braces when elements stand there: characters that mean
nothing, braces, strings, and elements with text, in which apostrophes may occur. The reader of
braces does not tell text from code: an apostrophe with a partner on its line opens a string for it,
and one without a partner is an ordinary character.

An apostrophe is settled if it has no partner or has it in its own text (`Settled`). If all are, the
braces are read up to their own end, whatever stands behind them (`expressionEnd_inBraces`).
Otherwise a string may reach from one container into the next (`exists_container_overrun`): in
`{<b>it's</b>} {<b>it's</b>}` it takes the brace that closes the first one.
-/

namespace DesignLint.Markup

/-- A character of the text of an element. -/
abbrev TextChar : Type := { c : Char // c ∉ ['"', backtick, '\x7b', '\x7d', '/'] }

/-- The characters of a text. -/
def written (inside : List TextChar) : Text := inside.map Subtype.val

/-- What may be written between braces, with elements that hold text. -/
inductive Content
  | nil
  | plain (c : PlainChar) (rest : Content)
  | braces (inner rest : Content)
  | string (s : StringLiteral) (rest : Content)
  | element (name : TagName) (inside : List TextChar) (rest : Content)

namespace Content

/-- The text of content. -/
def text : Content → Text
  | nil => []
  | plain c rest => c.val :: rest.text
  | braces inner rest => '\x7b' :: (inner.text ++ '\x7d' :: rest.text)
  | string s rest => s.text ++ rest.text
  | element name inside rest =>
    '<' :: (name.val ++ '>' :: (written inside ++ (closingText name.val ++ rest.text)))

/-- Content in braces. -/
def inBraces (e : Content) : Text := '\x7b' :: (e.text ++ ['\x7d'])

/-- The texts of the elements, each with what stands behind it. -/
def texts (after : Text) : Content → List (Text × Text)
  | nil => []
  | plain _ rest => rest.texts after
  | braces inner rest => inner.texts ('\x7d' :: (rest.text ++ after)) ++ rest.texts after
  | string _ rest => rest.texts after
  | element name inside rest =>
    (written inside, closingText name.val ++ rest.text ++ after) :: rest.texts after

end Content

/-- Every apostrophe of a text that opens a string has its partner in the text; the others have no
partner on their line, not even behind the text. -/
inductive Settled (after : Text) : Text → Prop
  | nil : Settled after []
  | char {c : Char} {us : Text} : c ≠ '\'' → Settled after us → Settled after (c :: us)
  | paired {us vs : Text} : Quoted '\'' us → Settled after vs →
    Settled after ('\'' :: us ++ '\'' :: vs)
  | loose {us : Text} : (∀ vs, Quoted '\'' vs → ¬ vs ++ ['\''] <+: us ++ after) →
    Settled after us → Settled after ('\'' :: us)

/-! ### Pieces of a container -/

section

variable {below : List Enclosure} {after us vs : Text} {c : Char}

theorem Enclosed.tagName (hus : ∀ d ∈ us, isNameChar d) (h : Enclosed after (.brace :: below) vs) :
    Enclosed after (.brace :: below) (us ++ vs) := by
  induction us with
  | nil => exact h
  | cons d us ih =>
    refine .plainChar (fun hmem => ?_) (ih fun e he => hus e (List.mem_cons_of_mem _ he))
    have hname := hus d (by simp)
    simp only [List.mem_cons, List.not_mem_nil, or_false] at hmem
    rcases hmem with rfl | rfl | rfl | rfl | rfl | rfl <;> exact absurd hname (by decide)

theorem Enclosed.closingTag {name : Text} (hname : IsTag name)
    (h : Enclosed after (.brace :: below) vs) :
    Enclosed after (.brace :: below) (closingText name ++ vs) := by
  have hslash : ∀ d ∈ (name ++ '>' :: vs ++ after).head?, d ≠ '/' ∧ d ≠ '*' := by
    obtain ⟨c, cs, rfl⟩ := List.exists_cons_of_ne_nil hname.1.1
    intro d hd
    obtain rfl : c = d := by simpa using hd
    have hc := hname.1.2 c (by simp)
    constructor <;> rintro rfl <;> exact absurd hc (by decide)
  have hbehind : Enclosed after (.brace :: below) (name ++ '>' :: vs) :=
    .tagName hname.1.2 (.plainChar (by decide) h)
  have hmark : '/' ∉ ['\x7b', '\x7d', '"', '\'', backtick] := by decide
  have := Enclosed.plainChar (c := '<') (by decide)
    (.char (.plain (by simp) hmark fun _ => hslash) hbehind)
  simpa [closingText] using this

theorem Enclosed.settled (hus : Settled (vs ++ after) us)
    (hchars : ∀ d ∈ us, d ∉ ['"', backtick, '\x7b', '\x7d', '/'])
    (h : Enclosed after (.brace :: below) vs) : Enclosed after (.brace :: below) (us ++ vs) := by
  -- the reader takes an apostrophe as `Settled` does: for a string, or for a plain character
  induction hus with
  | nil => exact h
  | @char c us hc _ ih =>
    refine .plainChar ?_ (ih fun d hd => hchars d (List.mem_cons_of_mem _ hd))
    have := hchars c (by simp)
    simp only [List.mem_cons, List.not_mem_nil, or_false, not_or] at this ⊢
    tauto
  | @paired us ws hq _ ih =>
    have := Enclosed.token (.quoted (by simp) (Or.inr rfl) hq)
      (ih fun d hd => hchars d (by simp [hd]))
    simpa using this
  | @loose us hno _ ih =>
    have hno' : ∀ ws, Quoted '\'' ws → ¬ ws ++ ['\''] <+: us ++ vs ++ after := by
      rwa [List.append_assoc]
    exact .char (.loose (by simp) (Or.inr rfl) hno')
      (ih fun d hd => hchars d (List.mem_cons_of_mem _ hd))

/-! ### A container -/

/-- Content with settled apostrophes leaves open what is open in front of it. -/
theorem Content.enclosed (e : Content) (hs : ∀ p ∈ e.texts (vs ++ after), Settled p.2 p.1)
    (h : Enclosed after (.brace :: below) vs) :
    Enclosed after (.brace :: below) (e.text ++ vs) := by
  induction e generalizing below vs with
  | nil => exact h
  | plain c rest ih => exact .plainChar c.property (ih hs h)
  | braces inner rest ihInner ihRest =>
    -- for what stands in the braces, their end and the rest are the text behind it
    simp only [texts, List.mem_append] at hs
    have hrest := ihRest (fun p hp => hs p (Or.inr hp)) h
    have hclose : Enclosed after (.brace :: .brace :: below) ('\x7d' :: (rest.text ++ vs)) :=
      .char (.closeBrace (by simp)) hrest
    have hinner := ihInner (fun p hp => hs p (Or.inl (by simpa using hp))) hclose
    have := Enclosed.char (.openBrace (by simp)) hinner
    simpa [text] using this
  | string s rest ih =>
    rw [text, List.append_assoc]
    exact .token (.quoted (by simp) s.isQuote s.quoted) (ih hs h)
  | element name inside rest ih =>
    simp only [texts, List.mem_cons, forall_eq_or_imp] at hs
    have hchars : ∀ c ∈ written inside, c ∉ ['"', backtick, '\x7b', '\x7d', '/'] := by
      intro c hc
      obtain ⟨d, -, rfl⟩ := List.mem_map.mp hc
      exact d.property
    have hclose := (ih hs.2 h).closingTag name.property
    have hinside : Enclosed after (.brace :: below)
        (written inside ++ (closingText name.val ++ (rest.text ++ vs))) :=
      hclose.settled (by simpa using hs.1) hchars
    have hopen := Enclosed.tagName name.property.1.2 (.plainChar (c := '>') (by decide) hinside)
    have := Enclosed.plainChar (c := '<') (by decide) hopen
    simpa [text] using this

/-- **Braces around elements are read up to their own end** if the apostrophes in their texts are
settled, whatever stands behind them. -/
theorem expressionEnd_inBraces {e : Content} (hs : ∀ p ∈ e.texts ('\x7d' :: after), Settled p.2 p.1)
    (o : Nat) : expressionEnd ⟨o, e.inBraces ++ after⟩ =
      some ⟨o + Text.size e.inBraces, after⟩ := by
  have hclose : Enclosed after [.brace, .outside] ['\x7d'] := .char .closeLast .done
  have hbraces : Enclosed after [.outside] e.inBraces :=
    .char (.openBrace (by simp)) (e.enclosed hs hclose)
  exact expressionEnd_eq_some.mpr ⟨e.inBraces, hbraces, rfl, rfl⟩

end

/-- An element with the name `b`. -/
def boldContent (inside : Text)
    (h : inside.all fun c => c ∉ ['"', backtick, '\x7b', '\x7d', '/']) : Content :=
  .element boldTag.name (inside.pmap Subtype.mk (List.all_iff_forall_prop.mp h)) .nil

/-- The first two apostrophes of the text make a string, and the third one has no partner on its
line; behind the next line break stands another one. -/
theorem expressionEnd_inBraces_bold :
    let e := boldContent "it's Jo's\nisn't".toList (by decide)
    let after := "\n'".toList
    (∀ p ∈ e.texts ('\x7d' :: after), Settled p.2 p.1) ∧
      expressionEnd ⟨0, e.inBraces ++ after⟩ = some ⟨24, after⟩ := by
  intro e after
  have hs : ∀ p ∈ e.texts ('\x7d' :: after), Settled p.2 p.1 := by
    intro p hp
    obtain rfl := List.mem_singleton.mp hp
    have hstring : Quoted '\'' "s Jo".toList :=
      quoted_of_forall (List.all_iff_forall_prop.mp (by decide))
    have hloose : ∀ vs, Quoted '\'' vs →
        ¬ vs ++ ['\''] <+: "t".toList ++ (closingText ['b'] ++ "\x7d\n'".toList) :=
      (closeQuote_eq_none (o := 0) (Or.inr rfl)).mp (by decide +kernel)
    have hend : Settled (closingText ['b'] ++ "\x7d\n'".toList) "s\nisn't".toList :=
      .char (by decide) <| .char (by decide) <| .char (by decide) <| .char (by decide) <|
        .char (by decide) <| .loose hloose <| .char (by decide) .nil
    exact .char (by decide) <| .char (by decide) <| .paired hstring hend
  exact ⟨hs, expressionEnd_inBraces hs 0⟩

/-- In `{<b>it's</b>} {<b>it's</b>}` the first brace is closed by the last one. -/
theorem exists_container_overrun : ∃ (e : Content) (after : Text), after ≠ [] ∧
    expressionEnd ⟨0, e.inBraces ++ after⟩ = some ⟨Text.size (e.inBraces ++ after), []⟩ := by
  let e := boldContent "it's".toList (by decide)
  exact ⟨e, ' ' :: e.inBraces, by simp, by decide +kernel⟩

end DesignLint.Markup
