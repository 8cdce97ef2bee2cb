import DesignLint.Regex.Parser
import DesignLint.Regex.Search

/-!
# Regular expressions

A `Regex` is a pattern that has been read and compiled: `Regex.ofText` makes one,
`Regex.isMatch` and `Regex.findAll` use it.
-/

namespace DesignLint

/-- A compiled regular expression with its source text. -/
structure Regex where
  source : String
  program : Regex.Program
  /-- The numbers of the named groups. -/
  names : List (String × Nat)

namespace Regex

/-- Reads and compiles a pattern. -/
def ofText (source : String) : Except ParseError Regex := do
  let p ← parse source.toList
  return ⟨source, .ofNode p.node, p.names⟩

/-- Whether a text has a match. -/
def isMatch (r : Regex) (cs : Text) : Bool := r.program.matches? cs

/-- All matches in a text, from left to right and without overlaps. -/
def findAll (r : Regex) (cs : Text) : List Match := r.program.findAll cs

/-- The span of a named group in a match. -/
def named? (r : Regex) (name : String) (m : Match) : Option Span :=
  (r.names.lookup name).bind m.group?

end Regex

end DesignLint
