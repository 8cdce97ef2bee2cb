import DesignLint.Proofs.Markup.Enclosure

/-!
# Code as it is written

`Code .brace` is what may be written between braces: characters that mean nothing there, braces,
quoted strings, template literals and block comments. `Code .template` is what may be written
between the backticks of a template literal: characters that mean nothing there, and interpolations
of code.

The text of code leaves open what was open in front of it (`Code.enclosed`), so the braces around it
are read as a whole, whatever stands behind them (`Code.enclosed_braces`).
-/

namespace DesignLint.Markup

/-- A quoted string on one line, in which a backslash takes the next character with it. -/
structure StringLiteral where
  quote : Char
  inside : Text
  isQuote : quote = '"' ∨ quote = '\''
  quoted : Quoted quote inside

/-- The text of a string with its quotes. -/
def StringLiteral.text (s : StringLiteral) : Text := s.quote :: s.inside ++ [s.quote]

/-- A comment that ends with the first `*/` behind its start. -/
structure BlockComment where
  inside : Text
  closed : ¬ ['*', '/'] <:+: inside ++ ['*']

/-- The text of a comment with its marks. -/
def BlockComment.text (c : BlockComment) : Text := '/' :: '*' :: c.inside ++ ['*', '/']

/-- A character that means nothing between braces. -/
abbrev PlainChar : Type := { c : Char // c ∉ ['"', '\'', backtick, '\x7b', '\x7d', '/'] }

/-- A character that means nothing in a template literal. -/
abbrev TemplateChar : Type := { c : Char // c ∉ ['\\', backtick, '$'] }

/-- What may be written where an enclosure is open. -/
inductive Code : Enclosure → Type
  | nil {m : Enclosure} : Code m
  | plain (c : PlainChar) (rest : Code .brace) : Code .brace
  | braces (inner rest : Code .brace) : Code .brace
  | string (s : StringLiteral) (rest : Code .brace) : Code .brace
  | comment (c : BlockComment) (rest : Code .brace) : Code .brace
  | template (inner : Code .template) (rest : Code .brace) : Code .brace
  | char (c : TemplateChar) (rest : Code .template) : Code .template
  | interpolation (inner : Code .brace) (rest : Code .template) : Code .template

theorem Enclosed.char {c : Char} {after us : Text} {stack stack' : List Enclosure}
    (ht : Token (us ++ after) stack [c] stack') (h : Enclosed after stack' us) :
    Enclosed after stack (c :: us) := .token ht h

theorem Enclosed.plainChar {c : Char} {after vs : Text} {below : List Enclosure}
    (hc : c ∉ ['"', '\'', backtick, '\x7b', '\x7d', '/'])
    (h : Enclosed after (.brace :: below) vs) : Enclosed after (.brace :: below) (c :: vs) := by
  simp only [List.mem_cons, List.not_mem_nil, or_false, not_or] at hc
  refine .char (.plain (by simp) ?_ fun hslash => absurd hslash hc.2.2.2.2.2) h
  simp only [List.mem_cons, List.not_mem_nil, or_false, not_or]
  tauto

namespace Code

/-- The text of code. -/
def text {m : Enclosure} : Code m → Text
  | nil => []
  | plain c rest => c.val :: rest.text
  | braces inner rest => '\x7b' :: (inner.text ++ '\x7d' :: rest.text)
  | string s rest => s.text ++ rest.text
  | comment c rest => c.text ++ rest.text
  | template inner rest => backtick :: (inner.text ++ backtick :: rest.text)
  | char c rest => c.val :: rest.text
  | interpolation inner rest => '$' :: '\x7b' :: (inner.text ++ '\x7d' :: rest.text)

/-- Code in braces. -/
def inBraces (e : Code .brace) : Text := '\x7b' :: (e.text ++ ['\x7d'])

/-- **Code leaves open what is open in front of it.** -/
theorem enclosed {m : Enclosure} (e : Code m) {below : List Enclosure} {after vs : Text}
    (h : Enclosed after (m :: below) vs) : Enclosed after (m :: below) (e.text ++ vs) := by
  induction e generalizing below vs with
  | nil => exact h
  | plain c rest ih =>
    have hslash : c.val ≠ '/' := fun hc => absurd c.property (by simp [hc])
    have hmem : c.val ∉ ['\x7b', '\x7d', '"', '\'', backtick] := by
      have := c.property
      simp only [List.mem_cons, List.not_mem_nil, or_false, not_or] at this ⊢
      tauto
    exact .char (.plain (by simp) hmem (absurd · hslash)) (ih h)
  | braces inner rest ihInner ihRest =>
    have hclose : Enclosed after (.brace :: .brace :: below) ('\x7d' :: (rest.text ++ vs)) :=
      .token (.closeBrace (by simp)) (ihRest h)
    have := Enclosed.token (.openBrace (by simp)) (ihInner hclose)
    simpa [text] using this
  | string s rest ih =>
    rw [text, List.append_assoc]
    exact .token (.quoted (by simp) s.isQuote s.quoted) (ih h)
  | comment c rest ih =>
    rw [text, List.append_assoc]
    exact .token (.blockComment (by simp) c.closed) (ih h)
  | template inner rest ihInner ihRest =>
    have hclose : Enclosed after (.template :: .brace :: below) (backtick :: (rest.text ++ vs)) :=
      .token .endTemplate (ihRest h)
    have := Enclosed.token (.startTemplate (by simp)) (ihInner hclose)
    simpa [text] using this
  | char c rest ih =>
    have hmem := c.property
    simp only [List.mem_cons, List.not_mem_nil, or_false, not_or] at hmem
    exact .char (.text hmem.1 hmem.2.1 (hmem.2.2 ·.1)) (ih h)
  | interpolation inner rest ihInner ihRest =>
    have hclose : Enclosed after (.brace :: .template :: below) ('\x7d' :: (rest.text ++ vs)) :=
      .token (.closeBrace (by simp)) (ihRest h)
    have := Enclosed.token .interpolation (ihInner hclose)
    simpa [text] using this

theorem enclosed_braces (e : Code .brace) (after : Text) : Enclosed after [.outside] e.inBraces :=
  .token (.openBrace (by simp)) (e.enclosed (.token .closeLast .done))

end Code

end DesignLint.Markup
