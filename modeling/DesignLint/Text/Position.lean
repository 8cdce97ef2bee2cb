import DesignLint.Text.Basic

/-!
# Lines and columns

A `LineIndex` is the table of the offsets at which the lines of a text start. The line of an offset
is looked up in it by binary search (`LineIndex.line`), and the column counts the characters from
the start of the line on (`LineIndex.column`); both are counted from 1. `LineIndex.lineText` is the
text of a line without its line break.
-/

namespace DesignLint

/-- A line and a column, both counted from 1. -/
structure Position where
  line : Nat
  column : Nat
deriving DecidableEq, Repr

/-! ### Binary search -/

section

variable {α : Type}

/-- Halves a range of indices until it is empty: what stands in front of it satisfies `p`, and what
stands behind it does not. -/
def partitionBetween (p : α → Bool) (xs : Array α) (low high : Nat) : Nat :=
  if low < high then
    let middle := low + (high - low) / 2
    if xs[middle]?.any p then partitionBetween p xs (middle + 1) high
    else partitionBetween p xs low middle
  else low
termination_by high - low

/-- The number of members that satisfy `p`, if they all stand in front of those that do not. -/
def partitionPoint (p : α → Bool) (xs : Array α) : Nat := partitionBetween p xs 0 xs.size

end

/-! ### The lines of a text -/

namespace Text

/-- The offsets of the line breaks of a text that starts at an offset. -/
def lineBreaksFrom (o : Nat) : Text → List Nat
  | [] => []
  | c :: cs =>
    if c = '\n' then o :: lineBreaksFrom (o + 1) cs else lineBreaksFrom (o + c.utf8Size) cs

/-- The offsets of the line breaks of a text. -/
def lineBreaks (cs : Text) : List Nat := lineBreaksFrom 0 cs

end Text

/-- The offsets at which the lines of a text start. -/
structure LineIndex where
  starts : Array Nat
deriving Repr

namespace LineIndex

/-- The first line starts with the text, and the others behind the line breaks. -/
def ofText (cs : Text) : LineIndex := ⟨(0 :: cs.lineBreaks.map (· + 1)).toArray⟩

/-- The line of an offset: the last one that starts there or in front of it. -/
def line (x : LineIndex) (offset : Nat) : Nat := partitionPoint (· ≤ offset) x.starts

/-- The column of an offset of the text. -/
def column (x : LineIndex) (cs : Text) (offset : Nat) : Nat :=
  let start := x.starts.getD (x.line offset - 1) 0
  (cs.slice ⟨start, offset⟩).length + 1

/-- The text of a line, without the carriage returns at its end. -/
def lineText (x : LineIndex) (cs : Text) (line : Nat) : Text :=
  let start := x.starts.getD (line - 1) 0
  let stop := (x.starts[line]?.map (· - 1)).getD cs.size
  ((cs.slice ⟨start, stop⟩).reverse.dropWhile (· == '\r')).reverse

end LineIndex

namespace Text

/-- The position of an offset. -/
def position (cs : Text) (offset : Nat) : Position :=
  let index := LineIndex.ofText cs
  ⟨index.line offset, index.column cs offset⟩

/-- The text of a line, without the carriage returns at its end. -/
def lineText (cs : Text) (line : Nat) : Text := (LineIndex.ofText cs).lineText cs line

end Text

end DesignLint
