import DesignLint.Text.Basic

/-!
# Quoted strings, template literals and braces

`closeQuote` finds the end of a quoted string; `scan` follows braces and template literals, which
may hold one another to any depth, and finds the end of the outermost one.  What is open at a point
is a stack of `Enclosure`s.  Inside braces, quoted strings and comments are stepped over; a quote
without a partner on its line is ordinary text, so that apostrophes do no harm.

* `expressionEnd` is the end of an expression in braces.
* `templateEnd` is the end of a template literal.
-/

namespace DesignLint.Markup

/-- The quote of template literals. -/
def backtick : Char := '\x60'

/-- The point after the quote that closes a string, from the point after its opening quote.  A
string ends on its line, and a backslash takes the next character with it. -/
def closeQuote (q : Char) (o : Nat) : Text → Option Cursor
  | [] => none
  | c :: cs =>
    if c == '\\' then
      match cs with
      | [] => none
      | d :: cs => closeQuote q (o + 1 + d.utf8Size) cs
    else if c == '\n' then none
    else if c == q then some ⟨o + c.utf8Size, cs⟩
    else closeQuote q (o + c.utf8Size) cs

theorem length_closeQuote_lt {q : Char} {o : Nat} {cs : Text} {k : Cursor}
    (h : closeQuote q o cs = some k) : k.rest.length < cs.length := by
  fun_induction closeQuote q o cs with
  | case1 => simp at h
  | case2 => simp at h
  | case3 o c d cs _ ih => have := ih h; simp only [List.length_cons]; omega
  | case4 => simp at h
  | case5 o c cs => simp only [Option.some.injEq] at h; subst h; simp
  | case6 o c cs _ _ _ ih => have := ih h; simp only [List.length_cons]; omega

/-- The end of the line that a point is on. -/
def lineEnd (k : Cursor) : Cursor := k.skipWhile (· != '\n')

/-- The point after the end of a block comment, from a point inside it. -/
def blockEnd (k : Cursor) : Option Cursor := (k.find ['*', '/']).map (·.skip 2)

theorem length_lineEnd_le (k : Cursor) : (lineEnd k).rest.length ≤ k.rest.length :=
  Cursor.length_skipWhile_le _ k

theorem length_blockEnd_le {k l : Cursor} (h : blockEnd k = some l) :
    l.rest.length ≤ k.rest.length := by
  obtain ⟨m, hm, rfl⟩ := Option.map_eq_some_iff.1 h
  exact Nat.le_trans (Cursor.length_skip_le 2 m) (Cursor.length_find_le hm)

/-- What a point can be enclosed by.  `outside` is the bottom of a stack that still waits for its
first brace. -/
inductive Enclosure
  | outside
  | brace
  | template
deriving DecidableEq, Repr

/-- The point at which everything that is open has been closed. -/
def scan (stack : List Enclosure) (o : Nat) (cs : Text) : Option Cursor :=
  match stack, cs with
  | [], cs => some ⟨o, cs⟩
  | _ :: _, [] => none
  | .template :: below, c :: cs =>
    if c == '\\' then
      match cs with
      | [] => none
      | d :: cs => scan (.template :: below) (o + 1 + d.utf8Size) cs
    else if c == backtick then scan below (o + 1) cs
    else
      match cs with
      | '\x7b' :: cs =>
        if c == '$' then scan (.brace :: .template :: below) (o + 2) cs
        else scan (.template :: below) (o + c.utf8Size) ('\x7b' :: cs)
      | cs => scan (.template :: below) (o + c.utf8Size) cs
  | top :: below, c :: cs =>
    if c == '\x7b' then scan (.brace :: top :: below) (o + 1) cs
    else if c == '\x7d' then
      if top == .outside then none
      else if below == [.outside] then some ⟨o + 1, cs⟩
      else scan below (o + 1) cs
    else if c == '"' || c == '\'' then
      match _hq : closeQuote c (o + 1) cs with
      | some k => scan (top :: below) k.offset k.rest
      | none => scan (top :: below) (o + 1) cs
    else if c == backtick then scan (.template :: top :: below) (o + 1) cs
    else
      match cs with
      | '/' :: cs =>
        if c == '/' then
          let k := lineEnd ⟨o + 2, cs⟩
          scan (top :: below) k.offset k.rest
        else scan (top :: below) (o + c.utf8Size) ('/' :: cs)
      | '*' :: cs =>
        if c == '/' then
          match _hb : blockEnd ⟨o + 2, cs⟩ with
          | some k => scan (top :: below) k.offset k.rest
          | none => none
        else scan (top :: below) (o + c.utf8Size) ('*' :: cs)
      | cs => scan (top :: below) (o + c.utf8Size) cs
termination_by cs.length
decreasing_by
  all_goals simp only [List.length_cons]
  all_goals try omega
  · have := length_closeQuote_lt _hq; omega
  · have := length_lineEnd_le ⟨o + 2, cs⟩; simp only at this; omega
  · have := length_blockEnd_le _hb; simp only at this; omega

/-- The end of the braces that open at a point. -/
def expressionEnd (k : Cursor) : Option Cursor := scan [.outside] k.offset k.rest

/-- The end of a template literal, from the point after its opening quote. -/
def templateEnd (k : Cursor) : Option Cursor := scan [.template] k.offset k.rest

end DesignLint.Markup
