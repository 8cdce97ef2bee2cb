import DesignLint.Markup.Enclosure
import DesignLint.Style.Site
import DesignLint.Value

/-!
# Style objects

`inlineSites` finds the values that a `style` attribute with an object in double braces gives to
watched properties.  The entries of the object are separated by commas outside brackets, strings and
template literals; of each entry the key is what precedes the first colon.
-/

namespace DesignLint.Style

/-- The inner brace of a style object that starts at a point. -/
def styleBrace? (k : Cursor) : Option Cursor := do
  let k ← k.skipText "style".toList
  let k ← (k.skipWhile isBlank).skipText ['=']
  let k ← (k.skipWhile isBlank).skipText ['\x7b']
  let k := k.skipWhile isBlank
  if k.rest.head? == some '\x7b' then some k else none

/-- The inner braces of the style objects of a script. -/
def styleBraces (before : Option Char) (o : Nat) : Text → List Cursor
  | [] => []
  | c :: cs =>
    let found := if before.any isWordChar then none else styleBrace? ⟨o, c :: cs⟩
    found.toList ++ styleBraces (some c) (o + c.utf8Size) cs

/-- The point after the quote that closes a string of any number of lines. -/
def stringEnd (q : Char) (o : Nat) : Text → Option Cursor
  | [] => none
  | c :: cs =>
    if c == '\\' then
      match cs with
      | [] => none
      | d :: cs => stringEnd q (o + 1 + d.utf8Size) cs
    else if c == q then some ⟨o + c.utf8Size, cs⟩
    else stringEnd q (o + c.utf8Size) cs

/-- How a character of an object changes the nesting depth. -/
def nesting (c : Char) : Int :=
  if c == '(' || c == '[' || c == '\x7b' then 1
  else if c == ')' || c == ']' || c == '\x7d' then -1
  else 0

/-- The points of the commas outside brackets, strings and template literals.  `fuel` bounds the
number of steps. -/
def topCommas (depth : Int) : (fuel : Nat) → Cursor → List Cursor
  | 0, _ => []
  | _ + 1, ⟨_, []⟩ => []
  | fuel + 1, ⟨o, c :: cs⟩ =>
    let next : Cursor := ⟨o + c.utf8Size, cs⟩
    if c == '"' || c == '\'' then
      match stringEnd c next.offset cs with
      | some next => topCommas depth fuel next
      | none => []
    else if c == Markup.backtick then
      match Markup.templateEnd next with
      | some next => topCommas depth fuel next
      | none => []
    else if c == ',' && depth == 0 then ⟨o, c :: cs⟩ :: topCommas depth fuel next
    else topCommas (depth + nesting c) fuel next

/-- The texts between some points, the first of them after `k`. -/
def between (k : Cursor) : List Cursor → List (Nat × Text)
  | [] => if k.rest == [] then [] else [(k.offset, k.rest)]
  | comma :: commas => (k.offset, k.upTo comma) :: between (comma.skip 1) commas

/-- The entries of an object, each with its offset, from the text between its braces. -/
def entries (body : Cursor) : List (Nat × Text) :=
  between body (topCommas 0 body.rest.length body)

/-- The key of an entry, as written, with the text after its colon. -/
def splitKey (quote : Option Char) : Text → Option (Text × Text)
  | [] => none
  | c :: cs =>
    let rest (quote : Option Char) := (splitKey quote cs).map fun (k, v) => (c :: k, v)
    match quote with
    | some q => if c == q then rest none else rest quote
    | none =>
      if c == '"' || c == '\'' then rest (some c)
      else if c == ':' then some ([], cs)
      else if nesting c == 1 then none
      else rest none

/-- Whether a character is a quote of a key. -/
def isKeyQuote (c : Char) : Bool := c == '"' || c == '\''

/-- A key without quotes. -/
def bareKey (key : Text) : Text :=
  let key := (Text.trim key).dropWhile isKeyQuote
  (key.reverse.dropWhile isKeyQuote).reverse

/-- The text between the first and the last character. -/
def inner (cs : Text) : Text := cs.tail.dropLast

/-- The context of a value in a style object, if it may hold a constant. -/
def inlineContext? (raw : Text) : Option ValueContext :=
  match raw with
  | [] => none
  | c :: cs =>
    let quoted :=
      (c == '"' || c == '\'') && cs.getLast? == some c && !(inner raw).contains c
    let template :=
      c == Markup.backtick && (Markup.templateEnd (.start cs)).any fun k => k.rest == []
    if quoted then some .inlineString
    else if template then
      if Text.has "$\x7b".toList raw then some .inlineTemplate else some .inlineString
    else if Value.isNumber raw then some .inlineNumber
    else if Value.isReference raw then none
    else if raw.any fun c => isKeyQuote c || c == Markup.backtick then some .inlineExpression
    else none

/-- The place of a value of a style object that starts at an offset. -/
def inlineSite? (property : Text) (start : Nat) (raw : Text) : Option ValueSite := do
  let context ← inlineContext? raw
  let whole : Span := ⟨start, start + raw.size⟩
  if context == .inlineString then
    return ⟨⟨whole.start + 1, whole.stop - 1⟩, inner raw, property, context⟩
  else return ⟨whole, raw, property, context⟩

/-- The place of the value of an entry at an offset, if its property is watched. -/
def entrySite? (watches : Text → Bool) (offset : Nat) (entry : Text) : Option ValueSite := do
  let (key, value) ← splitKey none entry
  let bare := bareKey key
  guard (!"...".toList.isPrefixOf bare)
  let property := Value.kebab bare
  guard (watches property)
  let lead : Text := value.takeWhile isBlank
  let raw := Text.trim value
  guard (raw != [])
  inlineSite? property (offset + key.size + 1 + lead.size) raw

/-- The places of the values of the style object whose inner brace is at a point. -/
def objectSites (watches : Text → Bool) (brace : Cursor) : List ValueSite :=
  match Markup.expressionEnd brace with
  | none => []
  | some stop =>
    let start := brace.skip 1
    let body : Cursor := ⟨start.offset, start.rest.takeBytes (stop.offset - 1 - start.offset)⟩
    (entries body).filterMap fun (offset, entry) => entrySite? watches offset entry

/-- The places of the values of all style objects of a script. -/
def inlineSites (watches : Text → Bool) (cs : Text) : List ValueSite :=
  (styleBraces none 0 cs).flatMap (objectSites watches)

end DesignLint.Style
