import DesignLint.Text.Blank
import DesignLint.Text.Fold
import DesignLint.Text.Script
import DesignLint.Text.Word

/-!
# Character classes

A class is an expression over ranges and named classes; `CharClass.has` decides membership.
-/

namespace DesignLint.Regex

/-- A set of characters. -/
inductive CharClass
  /-- Inclusive ranges of code points. -/
  | ranges (rs : List (Nat × Nat))
  /-- Decimal digits of all scripts. -/
  | digit
  /-- White space. -/
  | blank
  /-- Characters of words. -/
  | word
  /-- Characters of some general categories. -/
  | category (codes : List String)
  /-- Characters of a script. -/
  | script (code : String)
  /-- Alphabetic characters. -/
  | alphabetic
  | union (a b : CharClass)
  | inter (a b : CharClass)
  | diff (a b : CharClass)
  | symDiff (a b : CharClass)
  | compl (a : CharClass)
  /-- The characters that differ from a member in case only. -/
  | folded (a : CharClass)
  /-- The characters that differ from a member in the case of an ASCII letter only. -/
  | asciiFolded (a : CharClass)
deriving Repr, Inhabited

namespace CharClass

/-- A class of one character. -/
def single (c : Char) : CharClass := .ranges [(c.toNat, c.toNat)]

/-- The class without members. -/
def none : CharClass := .ranges []

/-- All characters. -/
def any : CharClass := .ranges [(0, 0x10FFFF)]

/-- Whether a character belongs to a class. -/
def has : CharClass → Char → Bool
  | .ranges rs, c => inRanges rs c
  | .digit, c => isDecimalDigit c
  | .blank, c => isBlank c
  | .word, c => isWordChar c
  | .category codes, c => codes.contains (generalCategory c)
  | .script code, c => scriptOf c == code
  | .alphabetic, c => isAlphabetic c
  | .union a b, c => a.has c || b.has c
  | .inter a b, c => a.has c && b.has c
  | .diff a b, c => a.has c && !b.has c
  | .symDiff a b, c => a.has c != b.has c
  | .compl a, c => !a.has c
  | .folded a, c => (caseVariants c).any a.has
  | .asciiFolded a, c => a.has c || a.has c.toLower || a.has c.toUpper

/-- An estimate of the bytes that a class takes in a compiled pattern. -/
def weight : CharClass → Nat
  | .ranges rs => 40 + 120 * (rs.filter (128 ≤ ·.2)).length
  | .digit => 4000
  | .blank => 1000
  | .word => 45000
  | .category codes => 8000 * codes.length
  | .script _ => 1000
  | .alphabetic => 40000
  | .union a b => a.weight + b.weight
  | .inter a b => min a.weight b.weight
  | .diff a b => a.weight + b.weight
  | .symDiff a b => a.weight + b.weight
  | .compl a => 400 + a.weight
  | .folded a => 2 * a.weight
  | .asciiFolded a => a.weight

/-! ## Named classes of ASCII characters -/

/-- The ranges of a named class of ASCII characters. -/
def ofAsciiName? : String → Option CharClass
  | "alnum" => some (.ranges [(0x30, 0x39), (0x41, 0x5A), (0x61, 0x7A)])
  | "alpha" => some (.ranges [(0x41, 0x5A), (0x61, 0x7A)])
  | "ascii" => some (.ranges [(0, 0x7F)])
  | "blank" => some (.ranges [(9, 9), (0x20, 0x20)])
  | "cntrl" => some (.ranges [(0, 0x1F), (0x7F, 0x7F)])
  | "digit" => some (.ranges [(0x30, 0x39)])
  | "graph" => some (.ranges [(0x21, 0x7E)])
  | "lower" => some (.ranges [(0x61, 0x7A)])
  | "print" => some (.ranges [(0x20, 0x7E)])
  | "punct" => some (.ranges [(0x21, 0x2F), (0x3A, 0x40), (0x5B, 0x60), (0x7B, 0x7E)])
  | "space" => some (.ranges [(9, 13), (0x20, 0x20)])
  | "upper" => some (.ranges [(0x41, 0x5A)])
  | "word" => some (.ranges [(0x30, 0x39), (0x41, 0x5A), (0x5F, 0x5F), (0x61, 0x7A)])
  | "xdigit" => some (.ranges [(0x30, 0x39), (0x41, 0x46), (0x61, 0x66)])
  | _ => Option.none

end CharClass

end DesignLint.Regex
