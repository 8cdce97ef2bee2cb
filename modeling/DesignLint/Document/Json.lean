import DesignLint.Decimal.Layout
import DesignLint.Document.Basic
import DesignLint.Text.Basic

/-!
# Documents in JSON

`Document.ofJson?` reads a text as one JSON value and nothing else; `Document.toJson` writes it on
one line, `Document.toPrettyJson` with an indentation of two spaces.

A number without fraction and exponent is an integer as long as it fits 64 bits, and a
floating-point number otherwise.  The latter is found from at most the first 64 bits of its digits
and a power of ten, with one multiplication or division (`decimalFloat?`).
-/

namespace DesignLint.Document

/-! ## Numbers -/

/-- The greatest unsigned 64-bit integer. -/
def maxWord : Nat := Nat.pow 2 64 - 1

/-- `10 ^ n` as a floating-point number. -/
def powerOfTen (n : Nat) : Float := Float.ofScientific 1 false n

/-- Divides by `10 ^ n`, in steps of at most 308. -/
def divideByTen (x : Float) (n : Nat) : Float :=
  if n ≤ 308 then x / powerOfTen n
  else if x == 0 then x
  else divideByTen (x / powerOfTen 308) (n - 308)
termination_by n

/-- `significand · 10 ^ exponent`; absent when it is too large. -/
def decimalFloat? (significand : Nat) (exponent : Int) : Option Float :=
  let x := Float.ofNat significand
  if exponent < 0 then some (divideByTen x (-exponent).toNat)
  else if exponent ≤ 308 then
    let y := x * powerOfTen exponent.toNat
    if y.isInf then none else some y
  else if significand == 0 then some x
  else none

/-- The value of a decimal digit. -/
def digitValue (c : Char) : Nat := c.toNat - '0'.toNat

/-- Reads digits into a significand as long as it fits 64 bits; gives the significand, the number of
digits read into it, and the number of digits after those. -/
def readDigits (significand : Nat) (ds : List Char) : Nat × Nat × Nat :=
  go significand 0 ds
where
  /-- Stops at the first digit that does not fit. -/
  go (s taken : Nat) : List Char → Nat × Nat × Nat
    | [] => (s, taken, 0)
    | d :: ds =>
      let t := s * 10 + digitValue d
      if t ≤ maxWord then go t (taken + 1) ds else (s, taken, ds.length + 1)

/-- The exponent written after `e`, and what follows it. -/
def readExponent (cs : Text) : Option (Int × Text) :=
  let (negative, cs) :=
    match cs with
    | '+' :: cs => (false, cs)
    | '-' :: cs => (true, cs)
    | cs => (false, cs)
  let (ds, rest) := cs.span Char.isDigit
  if ds == [] then none
  else
    let n := ds.foldl (fun n d => n * 10 + digitValue d) 0
    some (if negative then -(n : Int) else n, rest)

/-- Reads a number without its sign. -/
def readUnsigned (negative : Bool) (cs : Text) : Option (Document × Text) := do
  let (whole, rest) := cs.span Char.isDigit
  guard (whole != [] && (whole.head? != some '0' || whole.length == 1))
  let (s, _, dropped) := readDigits 0 whole
  let (fraction, rest) ←
    match rest with
    | '.' :: rest =>
      let (ds, rest) := rest.span Char.isDigit
      if ds == [] then none else some (ds, rest)
    | rest => some ([], rest)
  let (exponent, hasExponent, rest) ←
    match rest with
    | 'e' :: rest => (readExponent rest).map fun (e, r) => (e, true, r)
    | 'E' :: rest => (readExponent rest).map fun (e, r) => (e, true, r)
    | rest => some (0, false, rest)
  if fraction == [] && !hasExponent && dropped == 0 then
    if !negative then return (.int s, rest)
    if 0 < s && s ≤ Nat.pow 2 63 then return (.int (-(s : Int)), rest)
  let (s, taken, _) := readDigits s fraction
  let x ← decimalFloat? s ((dropped : Int) - taken + exponent)
  return (.float (if negative then -x else x), rest)

/-- Reads a number. -/
def readNumber : Text → Option (Document × Text)
  | '-' :: cs => readUnsigned true cs
  | cs => readUnsigned false cs

/-! ## Strings -/

/-- The value of a hexadecimal digit. -/
def hexValue? (c : Char) : Option Nat :=
  if c.isDigit then some (digitValue c)
  else if 'a' ≤ c && c ≤ 'f' then some (c.toNat - 'a'.toNat + 10)
  else if 'A' ≤ c && c ≤ 'F' then some (c.toNat - 'A'.toNat + 10)
  else none

/-- The value of a sequence of hexadecimal digits. -/
def hexNumber? (ds : List Char) : Option Nat :=
  ds.foldlM (fun n d => (hexValue? d).map (n * 16 + ·)) 0

/-- The character with a code point, unless it is a surrogate or too large. -/
def scalar? (n : Nat) : Option Char := if n.isValidChar then some (Char.ofNat n) else none

/-- The character that a one-letter escape stands for. -/
def simpleEscape? : Char → Option Char
  | '"' => some '"'
  | '\\' => some '\\'
  | '/' => some '/'
  | 'b' => some '\x08'
  | 'f' => some '\x0c'
  | 'n' => some '\n'
  | 'r' => some '\r'
  | 't' => some '\t'
  | _ => none

/-- How far a reader of a string has come. -/
inductive StringState
  | plain
  | escape
  /-- Inside `\uXXXX`: the digits so far, and the high surrogate that waits for a low one. -/
  | code (digits : List Char) (high : Option Nat)
  /-- After a high surrogate, before the `\` of the low one. -/
  | pair (high : Nat)
  /-- After the `\` of a low surrogate. -/
  | pairEscape (high : Nat)

/-- What four hexadecimal digits add to a string. -/
def takeCode (digits : List Char) (high : Option Nat) (done : List Char) :
    Option (StringState × List Char) := do
  let n ← hexNumber? digits
  match high with
  | none =>
    if 0xD800 ≤ n && n ≤ 0xDBFF then return (.pair n, done)
    return (.plain, (← scalar? n) :: done)
  | some h =>
    guard (0xDC00 ≤ n && n ≤ 0xDFFF)
    return (.plain, (← scalar? (0x10000 + (h - 0xD800) * 0x400 + (n - 0xDC00))) :: done)

/-- Reads the rest of a string; `done` holds the characters so far, the last one first. -/
def readString (state : StringState) (done : List Char) : Text → Option (String × Text)
  | [] => none
  | c :: cs =>
    match state with
    | .plain =>
      if c == '"' then some (String.ofList done.reverse, cs)
      else if c == '\\' then readString .escape done cs
      else if c.toNat < 0x20 then none
      else readString .plain (c :: done) cs
    | .escape =>
      if c == 'u' then readString (.code [] none) done cs
      else
        match simpleEscape? c with
        | some d => readString .plain (d :: done) cs
        | none => none
    | .code digits high =>
      if digits.length < 3 then readString (.code (digits ++ [c]) high) done cs
      else
        match takeCode (digits ++ [c]) high done with
        | some (state, done) => readString state done cs
        | none => none
    | .pair high => if c == '\\' then readString (.pairEscape high) done cs else none
    | .pairEscape high => if c == 'u' then readString (.code [] (some high)) done cs else none

/-! ## Values -/

/-- White space between tokens. -/
def isJsonBlank (c : Char) : Bool := c == ' ' || c == '\t' || c == '\n' || c == '\r'

/-- What follows the white space at the front of a text. -/
def skipJsonBlanks (cs : Text) : Text := cs.dropWhile isJsonBlank

/-- The text after a keyword. -/
def afterKeyword (word : String) (d : Document) (cs : Text) : Option (Document × Text) :=
  let word := word.toList
  if word.isPrefixOf cs then some (d, cs.drop word.length) else none

mutual

/-- Reads one value.  `fuel` bounds the number of steps, `depth` the nesting. -/
def readValue : (fuel : Nat) → (depth : Nat) → Text → Option (Document × Text)
  | 0, _, _ => none
  | fuel + 1, depth, cs =>
    match skipJsonBlanks cs with
    | 'n' :: cs => afterKeyword "null" .null ('n' :: cs)
    | 't' :: cs => afterKeyword "true" (.bool true) ('t' :: cs)
    | 'f' :: cs => afterKeyword "false" (.bool false) ('f' :: cs)
    | '"' :: cs => (readString .plain [] cs).map fun (s, rest) => (.string s, rest)
    | '[' :: cs =>
      match depth with
      | 0 => none
      | depth + 1 =>
        match skipJsonBlanks cs with
        | ']' :: rest => some (.array [], rest)
        | cs => (readItems fuel depth cs).map fun (ds, rest) => (.array ds, rest)
    | '\x7b' :: cs =>
      match depth with
      | 0 => none
      | depth + 1 =>
        match skipJsonBlanks cs with
        | '\x7d' :: rest => some (.object [], rest)
        | cs => (readFields fuel depth cs).map fun (fs, rest) => (.object fs, rest)
    | cs => readNumber cs

/-- Reads the items of an array up to its closing bracket. -/
def readItems : (fuel : Nat) → (depth : Nat) → Text → Option (List Document × Text)
  | 0, _, _ => none
  | fuel + 1, depth, cs =>
    match readValue fuel depth cs with
    | none => none
    | some (d, rest) =>
      match skipJsonBlanks rest with
      | ',' :: rest => (readItems fuel depth rest).map fun (ds, rest) => (d :: ds, rest)
      | ']' :: rest => some ([d], rest)
      | _ => none

/-- Reads the fields of an object up to its closing brace. -/
def readFields : (fuel : Nat) → (depth : Nat) → Text → Option (List (String × Document) × Text)
  | 0, _, _ => none
  | fuel + 1, depth, cs =>
    match skipJsonBlanks cs with
    | '"' :: cs =>
      match readString .plain [] cs with
      | none => none
      | some (key, rest) =>
        match skipJsonBlanks rest with
        | ':' :: rest =>
          match readValue fuel depth rest with
          | none => none
          | some (d, rest) =>
            match skipJsonBlanks rest with
            | ',' :: rest =>
              (readFields fuel depth rest).map fun (fs, rest) => ((key, d) :: fs, rest)
            | '\x7d' :: rest => some ([(key, d)], rest)
            | _ => none
        | _ => none
    | _ => none

end

/-- How deeply arrays and objects may nest. -/
def maxDepth : Nat := 127

/-- The value that a text holds, if it holds exactly one. -/
def ofJson? (text : String) : Option Document := do
  let cs := text.toList
  let (d, rest) ← readValue (2 * cs.length + 2) maxDepth cs
  guard (skipJsonBlanks rest == [])
  return d

/-! ## Writing -/

/-- A hexadecimal digit in lower case. -/
def hexDigit (n : Nat) : Char := Nat.digitChar n

/-- A character as it stands in a string. -/
def escapeChar (c : Char) : List Char :=
  match c with
  | '"' => ['\\', '"']
  | '\\' => ['\\', '\\']
  | '\x08' => ['\\', 'b']
  | '\x0c' => ['\\', 'f']
  | '\n' => ['\\', 'n']
  | '\r' => ['\\', 'r']
  | '\t' => ['\\', 't']
  | c =>
    if c.toNat < 0x20 then
      ['\\', 'u', '0', '0', hexDigit (c.toNat / 16), hexDigit (c.toNat % 16)]
    else [c]

/-- A string in quotes. -/
def quoted (s : String) : String :=
  String.ofList ('"' :: s.toList.flatMap escapeChar ++ ['"'])

/-- A floating-point number; one that is not finite has no spelling and is written as `null`. -/
def floatText (x : Float) : String :=
  if x.isNaN || x.isInf then "null" else Decimal.Layout.document.write x

mutual

/-- A document on one line. -/
def toJson : Document → String
  | .null => "null"
  | .bool b => if b then "true" else "false"
  | .int n => toString n
  | .float x => floatText x
  | .string s => quoted s
  | .plain s => quoted s
  | .array ds => "[" ++ ",".intercalate (itemsToJson ds) ++ "]"
  | .object fs => "\x7b" ++ ",".intercalate (fieldsToJson fs) ++ "\x7d"
  | .mapping es => "\x7b" ++ ",".intercalate (entriesToJson es) ++ "\x7d"

/-- The items of an array. -/
def itemsToJson : List Document → List String
  | [] => []
  | d :: ds => toJson d :: itemsToJson ds

/-- The fields of an object. -/
def fieldsToJson : List (String × Document) → List String
  | [] => []
  | (key, d) :: fs => (quoted key ++ ":" ++ toJson d) :: fieldsToJson fs

/-- The entries of a mapping whose keys are texts. -/
def entriesToJson : List (Document × Document) → List String
  | [] => []
  | (key, d) :: es =>
    match key.text? with
    | some key => (quoted key ++ ":" ++ toJson d) :: entriesToJson es
    | none => entriesToJson es

end

/-- A bracketed list with one entry a line, `margin` being the indentation of the line it starts
on. -/
def block (margin : String) (left right : String) (entries : List String) : String :=
  if entries.isEmpty then left ++ right
  else
    let inner := "\n" ++ margin ++ "  "
    left ++ inner ++ ("," ++ inner).intercalate entries ++ "\n" ++ margin ++ right

mutual

/-- A document over several lines. -/
def prettyJson (margin : String) : Document → String
  | .null => "null"
  | .bool b => if b then "true" else "false"
  | .int n => toString n
  | .float x => floatText x
  | .string s => quoted s
  | .plain s => quoted s
  | .array ds => block margin "[" "]" (prettyItems (margin ++ "  ") ds)
  | .object fs => block margin "\x7b" "\x7d" (prettyFields (margin ++ "  ") fs)
  | .mapping es => block margin "\x7b" "\x7d" (prettyEntries (margin ++ "  ") es)

/-- The items of an array. -/
def prettyItems (margin : String) : List Document → List String
  | [] => []
  | d :: ds => prettyJson margin d :: prettyItems margin ds

/-- The fields of an object. -/
def prettyFields (margin : String) : List (String × Document) → List String
  | [] => []
  | (key, d) :: fs => (quoted key ++ ": " ++ prettyJson margin d) :: prettyFields margin fs

/-- The entries of a mapping whose keys are texts. -/
def prettyEntries (margin : String) : List (Document × Document) → List String
  | [] => []
  | (key, d) :: es =>
    match key.text? with
    | some key => (quoted key ++ ": " ++ prettyJson margin d) :: prettyEntries margin es
    | none => prettyEntries margin es

end

/-- A document over several lines, indented by two spaces a level. -/
def toPrettyJson (d : Document) : String := prettyJson "" d

end DesignLint.Document
