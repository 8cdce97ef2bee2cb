import DesignLint.Style.Mask
import DesignLint.Style.Site
import DesignLint.Text.Fold

/-!
# Declarations

`declarations` finds `property: value` for watched properties in a text.  A property stands at the
start of a line or after a blank, a brace or a semicolon, and is compared regardless of case; its
value ends before a brace, a semicolon or the end of the line, and without blanks at its end.

`declarationSites` looks in the mask of a text but takes the values from the text itself, so that
interpolations in them stay visible.  A trailing `!important` is not part of a value.
-/

namespace DesignLint.Style

/-- A declaration: its property as written, and the points around its value. -/
structure Declaration where
  property : Text
  start : Cursor
  stop : Cursor

/-- Whether a property can stand after a character. -/
def separates (c : Char) : Bool := c == '\x7b' || c == ';' || isBlank c

/-- Whether a character can be part of a value. -/
def isValueChar (c : Char) : Bool := c != ';' && c != '\x7b' && c != '\x7d' && c != '\n'

/-- The declaration of one property at a point. -/
def declarationOf? (property : Text) (k : Cursor) : Option Declaration := do
  let rest ← Text.dropPrefixFold property k.rest
  let name : Text := k.rest.take (k.rest.length - rest.length)
  let colon := Cursor.skipWhile isBlank ⟨k.offset + name.size, rest⟩
  let start := Cursor.skipWhile (fun c => c == ' ' || c == '\t') (← colon.skipText [':'])
  let value := Text.trimEnd (start.rest.takeWhile isValueChar)
  guard (value != [])
  return ⟨name, start, start.skip value.length⟩

/-- The declaration of the first of some properties that is declared at a point. -/
def declarationAt? (properties : List Text) (k : Cursor) : Option Declaration :=
  properties.findSome? (declarationOf? · k)

/-- The declaration that starts at a point, after a character. -/
def declarationFrom? (properties : List Text) (before : Option Char) (k : Cursor) :
    Option Declaration :=
  let atLineStart := if before.all (· == '\n') then declarationAt? properties k else none
  match atLineStart with
  | some d => some d
  | none => if k.rest.head?.any separates then declarationAt? properties (k.skip 1) else none

/-- The declarations of a text from a point on, none overlapping an earlier one.  `busy` characters
still belong to the last declaration. -/
def declarations (properties : List Text) (busy : Nat) (before : Option Char) (o : Nat) :
    Text → List Declaration
  | [] => []
  | c :: cs =>
    let rest (busy : Nat) := declarations properties busy (some c) (o + c.utf8Size) cs
    match busy with
    | busy + 1 => rest busy
    | 0 =>
      match declarationFrom? properties before ⟨o, c :: cs⟩ with
      | some d => d :: rest (cs.length - d.stop.rest.length)
      | none => rest 0

/-- What precedes the last occurrence of `part` in a text. -/
def beforeLast? (part : Text) : Text → Option Text
  | [] => none
  | c :: cs =>
    match beforeLast? part cs with
    | some lead => some (c :: lead)
    | none => if part.isPrefixOf (c :: cs) then some [] else none

/-- A value without a trailing `!important`. -/
def withoutImportance (value : Text) : Text :=
  match beforeLast? "!important".toList (Text.lower value) with
  | some lead => Text.trimEnd (value.take lead.length)
  | none => value

/-- The place of a declared value in the text that was masked; `base` is the offset of that text. -/
def Declaration.site? (original : Text) (base : Nat) (d : Declaration) : Option ValueSite :=
  let written := original.slice ⟨d.start.offset, d.stop.offset⟩
  let value := withoutImportance written
  if value == [] then none
  else
    let start := base + d.start.offset
    some ⟨⟨start, start + value.size⟩, value, Text.lower d.property, .declaration⟩

/-- The declared values of a text with a given mask. -/
def declarationSites (properties : List Text) (mask original : Text) (base : Nat) :
    List ValueSite :=
  (declarations properties 0 none 0 mask).filterMap (·.site? original base)

end DesignLint.Style
