import DesignLint.Text.Basic

/-!
# Blanks

Two classes of white space are in use.  `isBlank` is Unicode's `White_Space` property and decides
what is trimmed from values and where words end; `isTagBlank` is the ASCII class that separates the
parts of a tag.  Every tag blank is a blank (`isBlank_of_isTagBlank`).
-/

namespace DesignLint

/-- Unicode's `White_Space` property. -/
def isBlank (c : Char) : Bool :=
  let n := c.toNat
  (9 ≤ n && n ≤ 13) || n == 0x20 || n == 0x85 || n == 0xA0 || n == 0x1680
    || (0x2000 ≤ n && n ≤ 0x200A) || n == 0x2028 || n == 0x2029 || n == 0x202F || n == 0x205F
    || n == 0x3000

/-- Space, tab, line feed, form feed and carriage return. -/
def isTagBlank (c : Char) : Bool :=
  c == ' ' || c == '\t' || c == '\n' || c == '\x0c' || c == '\r'

theorem isBlank_of_isTagBlank {c : Char} (h : isTagBlank c) : isBlank c := by
  simp only [isTagBlank, Bool.or_eq_true, beq_iff_eq] at h
  rcases h with (((rfl | rfl) | rfl) | rfl) | rfl <;> rfl

namespace Text

/-- A text without its leading blanks. -/
def trimStart (cs : Text) : Text := cs.dropWhile isBlank

/-- A text without its trailing blanks. -/
def trimEnd (cs : Text) : Text := (cs.reverse.dropWhile isBlank).reverse

/-- A text without blanks at either end. -/
def trim (cs : Text) : Text := trimEnd (trimStart cs)

/-- The maximal runs of characters that are not blank. -/
def words (cs : Text) : List Text := (cs.splitOnP isBlank).filter (· ≠ [])

/-- A text is blank when all its characters are. -/
def blank (cs : Text) : Bool := cs.all isBlank

/-- Every run of blanks as one space, and none at the ends. -/
def collapse (cs : Text) : Text := [' '].intercalate (words cs)

/-- A text of at most `limit` characters as it is; a longer one cut, with an ellipsis as its last
character. -/
def truncate (limit : Nat) (cs : Text) : Text :=
  if cs.length ≤ limit then cs else cs.take (limit - 1) ++ ['…']

/-- ASCII letters in lower case, all else unchanged. -/
def lower (cs : Text) : Text := cs.map Char.toLower

/-- Whether `part` occurs in a text. -/
def has (part : Text) : Text → Bool
  | [] => part.isEmpty
  | c :: cs => part.isPrefixOf (c :: cs) || has part cs

end Text

end DesignLint
