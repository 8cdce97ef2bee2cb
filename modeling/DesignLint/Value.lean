import DesignLint.Text.Blank
import DesignLint.Text.Fold
import DesignLint.Text.Word

/-!
# Style values

What can be said about a style value from its text alone: its normal form, in which differently
spaced and capitalised spellings agree; whether it consumes the token system; whether it is a
literal constant; and, for an expression of the surrounding script, what kind of expression it is.

* `Value.normalize` is the key under which values are approved and replaced.
* `Value.isTokenReference` and `Value.isLiteral` split values into those that use a token, those
  that could be replaced by one, and all others.
* `Value.expressionKind` tells the kind of an expression for a rationale.
-/

namespace DesignLint.Value

/-! ## Normal form -/

/-- No space is kept before these characters. -/
def hugsLeft (c : Char) : Bool := c == '(' || c == ')' || c == ',' || c == '/'

/-- No space is kept after these characters. -/
def hugsRight (c : Char) : Bool := c == '(' || c == ',' || c == '/'

/-- Writes each run of blanks as one space, or as nothing at either end of the text and next to
brackets, commas and slashes.  `last` is the character written last, `gap` whether a blank has been
read since. -/
def squeeze (last : Option Char) (gap : Bool) : Text → Text
  | [] => []
  | c :: cs =>
    if isBlank c then squeeze last true cs
    else if gap && !hugsLeft c && last.any (!hugsRight ·) then
      ' ' :: c :: squeeze (some c) false cs
    else c :: squeeze (some c) false cs

/-- The spelling that all spellings of one value share. -/
def normalize (v : Text) : Text := squeeze none false (Text.lower v)

/-! ## Utility classes write a space as an underscore -/

/-- The value that an arbitrary utility class stands for. -/
def ofClassName (v : Text) : Text := v.map fun c => if c == '_' then ' ' else c

/-- A value as it is written in an arbitrary utility class. -/
def toClassName (v : Text) : Text := (Text.trim v).map fun c => if c == ' ' then '_' else c

/-! ## Token references -/

/-- Keywords that never need a token. -/
def keywords : List Text :=
  ["inherit", "initial", "unset", "revert", "revert-layer", "currentcolor", "transparent"].map
    String.toList

/-- Functions that read a token. -/
def referenceFunctions : List Text := ["var(", "theme(", "token("].map String.toList

/-- A value that consumes the token system: a call that reads a token, a `$` or `@` variable, or a
keyword. -/
def isTokenReference (value : Text) : Bool :=
  let v := Text.trim value
  let lowered := Text.lower v
  referenceFunctions.any (·.isPrefixOf lowered) ||
    match v with
    | '$' :: c :: _ => c.isAlpha || c == '-'
    | '@' :: c :: _ => c.isAlpha || c == '-'
    | _ => keywords.contains lowered

/-! ## Literal constants -/

/-- A hexadecimal digit. -/
def isHexDigit (c : Char) : Bool :=
  c.isDigit || ('a' ≤ c && c ≤ 'f') || ('A' ≤ c && c ≤ 'F')

/-- `#` and three, four, six or eight hexadecimal digits. -/
def isHexColor : Text → Bool
  | '#' :: ds => ds.all isHexDigit && [3, 4, 6, 8].contains ds.length
  | _ => false

/-- Colour functions whose arguments may be constants. -/
def colorFunctions : List Text := ["rgb(", "rgba(", "hsl(", "hsla("].map String.toList

/-- Characters between the brackets of a constant colour. -/
def isColorArgument (c : Char) : Bool :=
  c.isDigit || isBlank c || "./,%+-".toList.contains c
    || ['d', 'e', 'g'].any (sameLetter c)

/-- A colour function with constant arguments. -/
def isColorFunction (v : Text) : Bool :=
  colorFunctions.any fun name =>
    match Text.dropPrefixFold name v with
    | some cs => cs.getLast? == some ')' && cs.dropLast != [] && cs.dropLast.all isColorArgument
    | none => false

/-- Splits off digits with at most one point, at least one digit among them. -/
def takeNumber (v : Text) : Option Text :=
  match v.span isDecimalDigit with
  | ([], '.' :: cs) =>
    match cs.span isDecimalDigit with
    | ([], _) => none
    | (_, rest) => some rest
  | ([], _) => none
  | (_, '.' :: cs) => some (cs.dropWhile isDecimalDigit)
  | (_, rest) => some rest

/-- A text without a leading minus sign. -/
def dropMinus : Text → Text
  | '-' :: cs => cs
  | cs => cs

/-- Units that a dimension may have. -/
def units : List Text :=
  ["px", "rem", "em", "%", "pt", "vh", "vw", "ch", "ex"].map String.toList

/-- A number with an optional minus sign. -/
def isNumber (v : Text) : Bool := takeNumber (dropMinus v) == some []

/-- A number with an optional minus sign and an optional unit. -/
def isDimension (v : Text) : Bool :=
  match takeNumber (dropMinus v) with
  | some rest => rest == [] || units.any fun u => Text.dropPrefixFold u rest == some []
  | none => false

/-- Keywords and lists of font names: a letter or a quote, then letters, digits, spaces, hyphens,
quotes and commas. -/
def isWordList : Text → Bool
  | [] => false
  | c :: cs =>
    (c.isAlpha || c == '"' || c == '\'') &&
      cs.all fun d => d.isAlphanum || " -\"',".toList.contains d

/-- A constant: a colour, a dimension, or a list of words. -/
def isLiteral (value : Text) : Bool :=
  let v := Text.trim value
  !v.isEmpty && !Text.has "$\x7b".toList v &&
    (isHexColor v || isColorFunction v || isDimension v || isWordList v)

/-! ## Expressions -/

/-- The first character of a name. -/
def isNameStart (c : Char) : Bool := c.isAlpha || c == '_' || c == '$'

/-- A later character of a name. -/
def isNamePart (c : Char) : Bool := isWordChar c || c == '$'

/-- How far a reader of references has come: inside a name, before the first character of a name,
inside an index, or behind an index. -/
inductive ReferenceState
  | start
  | name
  | question
  | point
  | index
  | closed

/-- Reads names joined by `.` or `?.`, and indexes in brackets. -/
def ReferenceState.accepts : ReferenceState → Text → Bool
  | .name, [] => true
  | .closed, [] => true
  | _, [] => false
  | .start, c :: cs => isNameStart c && accepts .name cs
  | .name, c :: cs =>
    if isNamePart c then accepts .name cs
    else if c == '?' then accepts .question cs
    else if c == '.' then accepts .point cs
    else c == '[' && accepts .index cs
  | .question, c :: cs => c == '.' && accepts .point cs
  | .point, c :: cs => isNameStart c && accepts .name cs
  | .index, c :: cs => if c == ']' then accepts .closed cs else accepts .index cs
  | .closed, c :: cs =>
    if c == '?' then accepts .question cs
    else if c == '.' then accepts .point cs
    else c == '[' && accepts .index cs

/-- A bare name or a chain of members, such as `theme.colors.primary`. -/
def isReference (e : Text) : Bool := ReferenceState.start.accepts (Text.trim e)

/-- The contents of the string literals of an expression, from left to right.  A literal ends at the
next quote of its own kind; a quote without a partner is skipped. -/
def stringLiterals (e : Text) : List Text :=
  go e.length e
where
  /-- The bound is the length of the text, which every step shortens. -/
  go : Nat → Text → List Text
    | 0, _ => []
    | _ + 1, [] => []
    | n + 1, c :: cs =>
      if c == '"' || c == '\'' || c == '\x60' then
        match cs.span (· != c) with
        | (inside, _ :: rest) => inside :: go n rest
        | (_, []) => go n cs
      else go n cs

/-- An expression without its quoted strings; an open string runs to the end. -/
def withoutStrings (quote : Option Char) : Text → Text
  | [] => []
  | c :: cs =>
    match quote with
    | some q => if c == q then withoutStrings none cs else withoutStrings quote cs
    | none =>
      if c == '"' || c == '\'' then withoutStrings (some c) cs else c :: withoutStrings none cs

/-- The kinds of expressions that a rationale tells apart. -/
inductive ExpressionKind
  | template
  | conditional
  | logical
  | call
  | concatenation
  | reference
deriving DecidableEq, Repr

/-- How a rationale names a kind of expression. -/
def ExpressionKind.describe : ExpressionKind → String
  | .template => "template literal interpolation"
  | .conditional => "conditional expression"
  | .logical => "logical expression"
  | .call => "function call"
  | .concatenation => "string concatenation"
  | .reference => "variable reference"

/-- The kind of an expression, from the operators outside its quoted strings. -/
def expressionKind (e : Text) : ExpressionKind :=
  let bare := withoutStrings none e
  if Text.has "$\x7b".toList bare || (Text.trimStart e).head? == some '\x60' then .template
  else if bare.contains '?' && bare.contains ':' then .conditional
  else if Text.has "&&".toList bare || Text.has "||".toList bare || Text.has "??".toList bare then
    .logical
  else if bare.contains '(' then .call
  else if bare.contains '+' then .concatenation
  else .reference

/-! ## Property names -/

/-- `backgroundColor` as `background-color`. -/
def kebab (key : Text) : Text :=
  key.flatMap fun c => if c.isUpper then ['-', c.toLower] else [c]

end DesignLint.Value
