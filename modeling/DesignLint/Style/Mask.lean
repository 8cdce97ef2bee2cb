import DesignLint.Markup.Enclosure
import DesignLint.Text.Blank

/-!
# Masks

Before declarations are looked for, comments of a style sheet are covered with spaces and
interpolations of a template literal with `x`.  A mask keeps line breaks and the number of bytes, so
that every offset means the same in the text and in its mask.
-/

namespace DesignLint.Style

/-- As many copies of `filler` as the character has bytes; a line break stays. -/
def cover (filler c : Char) : Text :=
  if c == '\n' then ['\n'] else List.replicate c.utf8Size filler

/-- A text covered with a character. -/
def coverAll (filler : Char) (cs : Text) : Text := cs.flatMap (cover filler)

/-- Where a reader of a style sheet is: outside comments, with only blanks before it on its line or
not; in a block comment; or in a line comment.  A line comment starts only where a line has nothing
but blanks before it. -/
inductive SheetState
  | code (fresh : Bool)
  | block (fresh : Bool)
  | line
deriving DecidableEq

/-- Whether a line still has only blanks after one more character. -/
def staysFresh (fresh : Bool) (c : Char) : Bool := c == '\n' || (fresh && isTagBlank c)

/-- A style sheet with its comments covered by spaces. -/
def maskComments : SheetState → Text → Text
  | _, [] => []
  | .code _, [c] => [c]
  | .code fresh, c :: d :: cs =>
    if c == '/' && d == '*' then ' ' :: ' ' :: maskComments (.block fresh) cs
    else if c == '/' && d == '/' && fresh then ' ' :: ' ' :: maskComments .line cs
    else c :: maskComments (.code (staysFresh fresh c)) (d :: cs)
  | .block _, [c] => cover ' ' c
  | .block fresh, c :: d :: cs =>
    if c == '*' && d == '/' then ' ' :: ' ' :: maskComments (.code fresh) cs
    else cover ' ' c ++ maskComments (.block (fresh || c == '\n')) (d :: cs)
  | .line, c :: cs =>
    if c == '\n' then '\n' :: maskComments (.code true) cs
    else cover ' ' c ++ maskComments .line cs

/-- The body of a template literal with every interpolation covered by `x`, from a point on.  `fuel`
bounds the number of interpolations. -/
def maskInterpolations : (fuel : Nat) → Cursor → Text
  | 0, k => k.rest
  | fuel + 1, k =>
    match k.find ['$', '\x7b'] with
    | none => k.rest
    | some start =>
      match Markup.expressionEnd (start.skip 1) with
      | some stop => k.upTo start ++ coverAll 'x' (start.upTo stop) ++ maskInterpolations fuel stop
      | none => k.upTo start ++ coverAll 'x' start.rest

end DesignLint.Style
