import DesignLint.Style.Site
import DesignLint.Value

/-!
# Utility classes

`classSites` finds arbitrary utility classes, such as `bg-[#fff]`: a watched stem, then a value in
brackets.  A class stands at the start of a line or after a blank, a quote, a brace, a colon or an
exclamation mark.
-/

namespace DesignLint.Style

/-- An arbitrary utility class: its stem as written, and the points around its value. -/
structure UtilityClass where
  stem : Text
  start : Cursor
  stop : Cursor

/-- Whether a class can stand after a character. -/
def leadsClass (c : Char) : Bool :=
  isBlank c || c == '"' || c == '\'' || c == '\x60' || c == '\x7b' || c == ':' || c == '!'

/-- The class with a stem at a point. -/
def classOf? (stem : Text) (k : Cursor) : Option UtilityClass := do
  let start ← k.skipText (stem ++ ['-', '['])
  let value := start.rest.takeWhile fun c => c != ']' && !isBlank c
  let stop := start.skip value.length
  guard (value != [] && stop.rest.head? == some ']')
  return ⟨stem, start, stop⟩

/-- The class with the first of some stems that fits at a point. -/
def classAt? (stems : List Text) (k : Cursor) : Option UtilityClass :=
  stems.findSome? (classOf? · k)

/-- The class that starts at a point, after a character. -/
def classFrom? (stems : List Text) (before : Option Char) (k : Cursor) : Option UtilityClass :=
  let atLineStart := if before.all (· == '\n') then classAt? stems k else none
  match atLineStart with
  | some u => some u
  | none => if k.rest.head?.any leadsClass then classAt? stems (k.skip 1) else none

/-- The classes of a text from a point on, none overlapping an earlier one.  `busy` characters still
belong to the last class. -/
def classes (stems : List Text) (busy : Nat) (before : Option Char) (o : Nat) :
    Text → List UtilityClass
  | [] => []
  | c :: cs =>
    let rest (busy : Nat) := classes stems busy (some c) (o + c.utf8Size) cs
    match busy with
    | busy + 1 => rest busy
    | 0 =>
      match classFrom? stems before ⟨o, c :: cs⟩ with
      | some u => u :: rest (cs.length + 1 - u.stop.rest.length)
      | none => rest 0

/-- What precedes the first occurrence of `part` in a text; all of it if there is none. -/
def beforeFirst (part : Text) : Text → Text
  | [] => []
  | c :: cs => if part.isPrefixOf (c :: cs) then [] else c :: beforeFirst part cs

/-- The place of the value of a class. -/
def UtilityClass.site (u : UtilityClass) : ValueSite :=
  ⟨⟨u.start.offset, u.stop.offset⟩, Value.ofClassName (u.start.upTo u.stop),
    beforeFirst ['-', '['] (u.stem ++ ['-', '[']), .className⟩

/-- The places of the values of all classes of a text. -/
def classSites (stems : List Text) (cs : Text) : List ValueSite :=
  (classes stems 0 none 0 cs).map UtilityClass.site

end DesignLint.Style
