import DesignLint.Markup.Element
import DesignLint.Markup.Enclosure
import DesignLint.Text.Blank

/-!
# Opening tags

`readOpeningTag` reads the opening tag at a `<`: its name and then its attributes, one
`TagStep` after the other, up to `>` or `/>`.  Where it meets something that it cannot follow it
gives up; the tag then ends there and counts as not terminated.
-/

namespace DesignLint.Markup

/-- Characters of tag and attribute names. -/
def isNameChar (c : Char) : Bool :=
  c.isAlphanum || c == '-' || c == '_' || c == '.' || c == ':'

/-- What an attribute's expression is: a quoted constant, a template literal, or an opaque
expression.  A template literal without interpolations is a constant. -/
def expressionValue (inner : Text) : AttributeValue :=
  let whole := .expression (String.ofList inner)
  match inner with
  | [] => whole
  | c :: cs =>
    if c == '"' || c == '\'' then
      if (closeQuote c 0 cs).any (·.rest == []) then .literal (String.ofList cs.dropLast) else whole
    else if c == backtick then
      if (templateEnd ⟨0, cs⟩).any (·.rest == []) then
        if Text.has ['$', '\x7b'] inner then .template (String.ofList inner)
        else .literal (String.ofList cs.dropLast)
      else whole
    else whole

/-- What stands at a point inside an opening tag. -/
inductive TagStep
  /-- The end of the tag. -/
  | finish (selfClosing : Bool) (next : Cursor)
  | attribute (a : Attribute) (next : Cursor)
  /-- A comment in braces. -/
  | comment (next : Cursor)
  /-- Something that cannot be followed; the tag ends here. -/
  | stuck (here : Cursor)

/-- The text inside braces that open at `k` and end at `l`. -/
def insideBraces (k l : Cursor) : Text := Text.trim ((k.upTo l).drop 1).dropLast

/-- Reads a spread or a comment in braces. -/
def braceStep (k : Cursor) : TagStep :=
  match expressionEnd k with
  | none => .stuck k
  | some l =>
    let inner := insideBraces k l
    if ['.', '.', '.'].isPrefixOf inner then
      let operand := String.ofList (Text.trim (inner.drop 3))
      .attribute ⟨"...", .spread operand, ⟨k.offset, l.offset⟩⟩ l
    else if ['/', '*'].isPrefixOf inner && ['*', '/'].isSuffixOf inner then .comment l
    else .stuck k

/-- Reads the value of an attribute after its `=`: a quoted constant or an expression in braces. -/
def readValue (k : Cursor) : Option (AttributeValue × Cursor) :=
  match k.rest with
  | '\x7b' :: _ => (expressionEnd k).map fun l => (expressionValue (insideBraces k l), l)
  | c :: cs =>
    if c == '"' || c == '\'' then
      let inside := Cursor.mk (k.offset + 1) cs
      (inside.find [c]).map fun l => (.literal (String.ofList (inside.upTo l)), l.skip 1)
    else none
  | [] => none

/-- Reads an attribute that starts with a name. -/
def nameStep (k : Cursor) : TagStep :=
  let l := k.skipWhile isNameChar
  let name := String.ofList (k.upTo l)
  let m := l.skipWhile isTagBlank
  match m.rest with
  | '=' :: cs =>
    match readValue (Cursor.skipWhile isTagBlank ⟨m.offset + 1, cs⟩) with
    | some (value, next) => .attribute ⟨name, value, ⟨k.offset, next.offset⟩⟩ next
    | none => .stuck l
  | _ => .attribute ⟨name, .flag, ⟨k.offset, l.offset⟩⟩ l

/-- Reads what stands at a point inside an opening tag that is not blank. -/
def tagStep (k : Cursor) : TagStep :=
  match k.rest with
  | [] => .stuck k
  | '/' :: '>' :: cs => .finish true ⟨k.offset + 2, cs⟩
  | c :: cs =>
    if c == '>' then .finish false ⟨k.offset + 1, cs⟩
    else if c == '\x7b' then braceStep k
    else if isNameChar c then nameStep k
    else .stuck k

/-- How an opening tag ends. -/
inductive TagEnd
  | opened
  | closedItself
  | unterminated
deriving DecidableEq, Repr

/-- Reads attributes up to the end of the tag.  `fuel` bounds the number of steps; each takes at
least one character. -/
def readAttributes : (fuel : Nat) → Cursor → List Attribute × TagEnd × Cursor
  | 0, k => ([], .unterminated, k)
  | fuel + 1, k =>
    let k := k.skipWhile isTagBlank
    match tagStep k with
    | .finish selfClosing next => ([], if selfClosing then .closedItself else .opened, next)
    | .stuck here => ([], .unterminated, here)
    | .comment next => readAttributes fuel next
    | .attribute a next =>
      let (as, e, last) := readAttributes fuel next
      (a :: as, e, last)

/-- The opening tag whose `<` stands at a point, and the point after it; absent if no tag name
follows.  Its closing tag and children are not known yet. -/
def readOpeningTag (k : Cursor) : Option (Element × Cursor) :=
  match k.rest with
  | lt :: c :: cs =>
    if lt.utf8Size != 1 || !c.isAlpha then none
    else
      let first := Cursor.mk (k.offset + 1) (c :: cs)
      let afterName := first.skipWhile isNameChar
      let (attributes, e, last) := readAttributes (afterName.rest.length + 1) afterName
      let selfClosing := e == .closedItself
      some ({ tag := ⟨k.offset, last.offset⟩
              name := ⟨first.offset, afterName.offset⟩
              attributes
              selfClosing
              terminated := e != .unterminated
              closing := none
              children := if selfClosing then .selfClosing else .unclosed }, last)
  | _ => none

end DesignLint.Markup
