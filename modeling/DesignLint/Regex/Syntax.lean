import DesignLint.Regex.CharClass

/-!
# Syntax of regular expressions

A `Node` is a parsed pattern.  It stands for a relation between points of a text, together with an
order of preference among the ways to go on: the left branch of an alternative before the right one,
more repetitions before fewer unless the repetition is lazy.
-/

namespace DesignLint.Regex

/-- A condition on a point of a text. -/
inductive Assertion
  | textStart
  | textEnd
  | lineStart
  | lineEnd
  /-- The start of a line where a carriage return also ends lines. -/
  | anyLineStart
  /-- The end of a line where a carriage return also ends lines. -/
  | anyLineEnd
  | wordBoundary (ascii : Bool)
  | noWordBoundary (ascii : Bool)
  | wordStart (ascii : Bool)
  | wordEnd (ascii : Bool)
  | wordStartHalf (ascii : Bool)
  | wordEndHalf (ascii : Bool)
deriving Repr

namespace Assertion

/-- Whether a character, if there is one, belongs to a word. -/
def inWord (ascii : Bool) (c : Option Char) : Bool :=
  c.any fun c => if ascii then isAsciiWordChar c else isWordChar c

/-- Whether a condition holds between two characters, either of which may be missing at an end of
the text. -/
def holds (a : Assertion) (before after : Option Char) : Bool :=
  match a with
  | .textStart => before.isNone
  | .textEnd => after.isNone
  | .lineStart => before.all (· == '\n')
  | .lineEnd => after.all (· == '\n')
  | .anyLineStart => before.all (· == '\n') || (before == some '\r' && after != some '\n')
  | .anyLineEnd => after.all (· == '\r') || (after == some '\n' && before != some '\r')
  | .wordBoundary ascii => inWord ascii before != inWord ascii after
  | .noWordBoundary ascii => inWord ascii before == inWord ascii after
  | .wordStart ascii => !inWord ascii before && inWord ascii after
  | .wordEnd ascii => inWord ascii before && !inWord ascii after
  | .wordStartHalf ascii => !inWord ascii before
  | .wordEndHalf ascii => !inWord ascii after

end Assertion

/-- A parsed pattern. -/
inductive Node
  | empty
  /-- One character of a class. -/
  | one (c : CharClass)
  | check (a : Assertion)
  | seq (a b : Node)
  | alt (a b : Node)
  /-- At least `least` and at most `most` repetitions. -/
  | loop (least : Nat) (most : Option Nat) (greedy : Bool) (body : Node)
  | group (index : Nat) (body : Node)
deriving Repr, Inhabited

namespace Node

/-- Whether a pattern can match without taking a character. -/
def nullable : Node → Bool
  | .empty => true
  | .one _ => false
  | .check _ => true
  | .seq a b => a.nullable && b.nullable
  | .alt a b => a.nullable || b.nullable
  | .loop least _ _ body => least == 0 || body.nullable
  | .group _ body => body.nullable

/-- An estimate of the bytes that a compiled pattern takes. -/
def weight : Node → Nat
  | .empty => 0
  | .one c => c.weight
  | .check _ => 40
  | .seq a b => a.weight + b.weight
  | .alt a b => 40 + a.weight + b.weight
  | .loop least most _ body => (max 1 (most.getD (least + 1))) * (40 + body.weight)
  | .group _ body => 80 + body.weight

end Node

end DesignLint.Regex
