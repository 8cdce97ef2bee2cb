import DesignLint.Decimal.Read
import DesignLint.Document.Json
import DesignLint.Document.Scalar

/-!
# Documents in TOML

`Document.ofToml?` reads a text as a TOML document.  A text is a sequence of statements
(`Toml.Statement`): pairs of a dotted key and a value, and headers that open a table or add a table
to an array of tables.  The statements are carried out on a tree (`Toml.Node`) that remembers how
each table came about, because that decides whether it may be opened or extended again.
-/

namespace DesignLint.Document.Toml

/-! ## Blanks and comments -/

/-- White space inside a line. -/
def isGap (c : Char) : Bool := c == ' ' || c == '\t'

/-- What follows the white space at the front of a text. -/
def skipGap (cs : Text) : Text := cs.dropWhile isGap

/-- A character that no comment and no string may hold. -/
def isControl (c : Char) : Bool := (c.toNat < 0x20 && c != '\t') || c.toNat == 0x7F

/-- The text after a line break, if one stands at the front. -/
def afterBreak? : Text → Option Text
  | '\n' :: cs => some cs
  | '\r' :: '\n' :: cs => some cs
  | _ => none

/-- What follows white space and a comment; fails on a control character in the comment. -/
def skipComment (cs : Text) : Option Text :=
  match skipGap cs with
  | '#' :: cs =>
    match cs.span (!isControl ·) with
    | (_, []) => some []
    | (_, rest) => if (afterBreak? rest).isSome then some rest else none
  | cs => some cs

/-- What follows blank lines and comments.  `fuel` bounds the number of lines. -/
def skipLines : (fuel : Nat) → Text → Option Text
  | 0, cs => some cs
  | fuel + 1, cs => do
    let rest ← skipComment cs
    match afterBreak? rest with
    | some rest => skipLines fuel rest
    | none => return rest

/-! ## Strings and keys -/

/-- Reads `n` hexadecimal digits of a code point. -/
def codePoint? (n : Nat) (cs : Text) : Option (Char × Text) := do
  let ds := cs.take n
  guard (ds.length == n)
  let v ← hexNumber? ds
  return (← scalar? v, cs.drop n)

/-- Reads an escape after its backslash. -/
def escape? : Text → Option (Char × Text)
  | 'b' :: cs => some ('\x08', cs)
  | 't' :: cs => some ('\t', cs)
  | 'n' :: cs => some ('\n', cs)
  | 'f' :: cs => some ('\x0c', cs)
  | 'r' :: cs => some ('\r', cs)
  | 'e' :: cs => some ('\x1b', cs)
  | '"' :: cs => some ('"', cs)
  | '\\' :: cs => some ('\\', cs)
  | 'x' :: cs => codePoint? 2 cs
  | 'u' :: cs => codePoint? 4 cs
  | 'U' :: cs => codePoint? 8 cs
  | _ => none

/-- Reads a string on one line, after its opening quote. -/
def lineString (quote : Char) : (fuel : Nat) → Text → Option (Text × Text)
  | 0, _ => none
  | _ + 1, [] => none
  | fuel + 1, c :: cs =>
    if c == quote then some ([], cs)
    else if isControl c then none
    else if c == '\\' && quote == '"' then do
      let (d, rest) ← escape? cs
      let (s, rest) ← lineString quote fuel rest
      return (d :: s, rest)
    else do
      let (s, rest) ← lineString quote fuel cs
      return (c :: s, rest)

/-- What follows a backslash at the end of a line: the first character that is not blank. -/
def afterContinuation? (cs : Text) : Option Text := do
  let rest ← afterBreak? (skipGap cs)
  return rest.dropWhile fun c => isGap c || c == '\n' || c == '\r'

/-- Reads a string over several lines, after its opening quotes. -/
def blockString (quote : Char) : (fuel : Nat) → Text → Option (Text × Text)
  | 0, _ => none
  | _ + 1, [] => none
  | fuel + 1, c :: cs =>
    if c == quote then
      let (quotes, rest) := (c :: cs).span (· == quote)
      if quotes.length < 3 then do
        let (s, rest) ← blockString quote fuel rest
        return (quotes ++ s, rest)
      else if quotes.length ≤ 5 then some (quotes.drop 3, rest)
      else none
    else if c == '\n' then do
      let (s, rest) ← blockString quote fuel cs
      return ('\n' :: s, rest)
    else if c == '\r' then
      match cs with
      | '\n' :: cs => do
        let (s, rest) ← blockString quote fuel cs
        return ('\r' :: '\n' :: s, rest)
      | _ => none
    else if isControl c then none
    else if c == '\\' && quote == '"' then
      match afterContinuation? cs with
      | some rest => blockString quote fuel rest
      | none => do
        let (d, rest) ← escape? cs
        let (s, rest) ← blockString quote fuel rest
        return (d :: s, rest)
    else do
      let (s, rest) ← blockString quote fuel cs
      return (c :: s, rest)

/-- Reads a string of any kind. -/
def string? (cs : Text) : Option (String × Text) := do
  let skipFirst (cs : Text) : Text := (afterBreak? cs).getD cs
  let (s, rest) ←
    match cs with
    | '"' :: '"' :: '"' :: cs => blockString '"' (cs.length + 1) (skipFirst cs)
    | '\'' :: '\'' :: '\'' :: cs => blockString '\'' (cs.length + 1) (skipFirst cs)
    | '"' :: cs => lineString '"' (cs.length + 1) cs
    | '\'' :: cs => lineString '\'' (cs.length + 1) cs
    | _ => none
  return (String.ofList s, rest)

/-- A character of a key without quotes. -/
def isKeyChar (c : Char) : Bool := c.isAlphanum || c == '_' || c == '-'

/-- Reads one part of a key. -/
def keyPart? (cs : Text) : Option (String × Text) :=
  match cs with
  | '"' :: cs => (lineString '"' (cs.length + 1) cs).map fun (s, r) => (String.ofList s, r)
  | '\'' :: cs => (lineString '\'' (cs.length + 1) cs).map fun (s, r) => (String.ofList s, r)
  | cs =>
    match cs.span isKeyChar with
    | ([], _) => none
    | (s, rest) => some (String.ofList s, rest)

/-- Reads a dotted key, with white space around it.  `fuel` bounds the number of parts. -/
def key? : (fuel : Nat) → Text → Option (List String × Text)
  | 0, _ => none
  | fuel + 1, cs => do
    let (part, rest) ← keyPart? (skipGap cs)
    match skipGap rest with
    | '.' :: rest =>
      let (parts, rest) ← key? fuel rest
      return (part :: parts, rest)
    | rest => return ([part], rest)

/-! ## Scalars -/

/-- Digits with single underscores between them, without the underscores. -/
def digits? (isDigit : Char → Bool) (cs : Text) : Option Text :=
  let parts := cs.splitOn '_'
  if parts.all fun p => p != [] && p.all isDigit then some parts.flatten else none

/-- A decimal integer without its sign: no zero in front of other digits. -/
def whole? (cs : Text) : Option Text := do
  let ds ← digits? Char.isDigit cs
  guard (ds.length == 1 || ds.head? != some '0')
  return ds

/-- An integer. -/
def int? (cs : Text) : Option Int :=
  match cs with
  | '0' :: 'x' :: ds => do
    return ← natIn? 16 (← digits? (fun c => (digitIn? 16 c).isSome) ds)
  | '0' :: 'o' :: ds => do return ← natIn? 8 (← digits? (fun c => (digitIn? 8 c).isSome) ds)
  | '0' :: 'b' :: ds => do return ← natIn? 2 (← digits? (fun c => (digitIn? 2 c).isSome) ds)
  | cs => do
    let (negative, cs) := Decimal.takeSign cs
    let n := Decimal.natOfDigits (← whole? cs)
    return if negative then -(n : Int) else n

/-- A floating-point number. -/
def float? (cs : Text) : Option Float := do
  let (negative, cs) := Decimal.takeSign cs
  let x ←
    if cs == "inf".toList then some (1 / 0 : Float)
    else if cs == "nan".toList then some (0 / 0)
    else do
      let (before, power) := cs.span fun c => !(c == 'e' || c == 'E')
      let (whole, fraction) := before.span (· != '.')
      guard (power != [] || fraction != [])
      let whole ← whole? whole
      let fraction ← match fraction with
        | _ :: ds => do some ('.' :: (← digits? Char.isDigit ds))
        | [] => some []
      let power ← match power with
        | e :: cs => do
          let sign := cs.takeWhile fun c => c == '+' || c == '-'
          guard (sign.length ≤ 1)
          some (e :: sign ++ (← digits? Char.isDigit (cs.drop sign.length)))
        | [] => some []
      Decimal.read? (whole ++ fraction ++ power)
  return if negative then -x else x

/-- A number of exactly `n` digits from `low` to `high`, and what follows. -/
def ranged? (n low high : Nat) (cs : Text) : Option Text :=
  let ds := cs.take n
  let v := Decimal.natOfDigits ds
  if ds.length == n && ds.all Char.isDigit && low ≤ v && v ≤ high then some (cs.drop n) else none

/-- What follows a given character. -/
def after? (c : Char) : Text → Option Text
  | d :: cs => if d == c then some cs else none
  | [] => none

/-- What follows a date. -/
def date? (cs : Text) : Option Text := do
  let cs ← after? '-' (← ranged? 4 0 9999 cs)
  let month := Decimal.natOfDigits (cs.take 2)
  let cs ← after? '-' (← ranged? 2 1 12 cs)
  let longest := if month == 2 then 29 else if [4, 6, 9, 11].contains month then 30 else 31
  ranged? 2 1 longest cs

/-- What follows a time of day. -/
def time? (cs : Text) : Option Text := do
  let cs ← ranged? 2 0 59 (← after? ':' (← ranged? 2 0 23 cs))
  match cs with
  | ':' :: cs =>
    let cs ← ranged? 2 0 60 cs
    match cs with
    | '.' :: cs =>
      let (ds, rest) := cs.span Char.isDigit
      guard (ds != [])
      return rest
    | cs => return cs
  | cs => return cs

/-- What follows an offset of a time zone; none is needed. -/
def zone? (cs : Text) : Option Text :=
  match cs with
  | 'Z' :: cs => some cs
  | 'z' :: cs => some cs
  | '+' :: cs => do ranged? 2 0 59 (← after? ':' (← ranged? 2 0 23 cs))
  | '-' :: cs => do ranged? 2 0 59 (← after? ':' (← ranged? 2 0 23 cs))
  | cs => some cs

/-- Whether a text is a date, a time, or both. -/
def isMoment (cs : Text) : Bool :=
  match date? cs with
  | some [] => true
  | some (c :: cs) =>
    (c == 'T' || c == 't' || c == ' ') && ((time? cs).bind zone?) == some []
  | none => time? cs == some []

/-- A moment as a document. -/
def moment (cs : Text) : Document := .object [("moment", .string (String.ofList cs))]

/-- The scalar that a word stands for. -/
def scalarOf? (cs : Text) : Option Document :=
  if cs == "true".toList then some (.bool true)
  else if cs == "false".toList then some (.bool false)
  else if isMoment cs then some (moment cs)
  else
    match int? cs, float? cs with
    | some n, _ => some (.int n)
    | none, some x => some (.float x)
    | none, none => none

/-- A character of a scalar without quotes. -/
def isScalarChar (c : Char) : Bool :=
  c.isAlphanum || c == '_' || c == '-' || c == '+' || c == '.' || c == ':'

/-- Reads a scalar without quotes; a date may have a space before its time. -/
def scalarWord (cs : Text) : Text × Text :=
  let (word, rest) := cs.span isScalarChar
  match rest with
  | ' ' :: d :: more =>
    if d.isDigit && date? word == some [] then
      let (time, rest) := (d :: more).span isScalarChar
      (word ++ ' ' :: time, rest)
    else (word, rest)
  | rest => (word, rest)

/-! ## Trees -/

/-- How a table came about. -/
inductive Origin
  /-- On the way to a table that a header names. -/
  | implied
  | header
  /-- On the way of a dotted key. -/
  | dotted
deriving DecidableEq

/-- A tree that is being built. -/
inductive Node
  /-- A complete value. -/
  | value (d : Document)
  | table (origin : Origin) (entries : List (String × Node))
  /-- An array of tables, the latest first. -/
  | tables (latest : List (String × Node)) (older : List (List (String × Node)))

/-- The entries of a table. -/
abbrev Entries := List (String × Node)

/-- Replaces the value of a key, or adds it at the end. -/
def put (key : String) (n : Node) (es : Entries) : Entries :=
  if es.any (·.1 == key) then es.map fun e => if e.1 == key then (key, n) else e
  else es ++ [(key, n)]

/-- Adds a value under a dotted key. -/
def addValue : List String → Document → Entries → Option Entries
  | [], _, _ => none
  | [key], d, es => if (es.lookup key).isSome then none else some (es ++ [(key, .value d)])
  | key :: path, d, es =>
    match es.lookup key with
    | none => do return es ++ [(key, .table .dotted (← addValue path d []))]
    | some (.table origin inner) =>
      if origin == .header then none
      else do return put key (.table origin (← addValue path d inner)) es
    | some _ => none

/-- Changes the table that a path leads to; tables on the way are made if they are missing. -/
def descend (change : Entries → Option Entries) : List String → Entries → Option Entries
  | [], es => change es
  | key :: path, es =>
    match es.lookup key with
    | none => do return es ++ [(key, .table .implied (← descend change path []))]
    | some (.table origin inner) => do
      return put key (.table origin (← descend change path inner)) es
    | some (.tables latest older) => do
      return put key (.tables (← descend change path latest) older) es
    | some (.value _) => none

/-- Opens a table. -/
def openTable (key : String) (es : Entries) : Option Entries :=
  match es.lookup key with
  | none => some (es ++ [(key, .table .header [])])
  | some (.table .implied inner) => some (put key (.table .header inner) es)
  | some _ => none

/-- Adds a table to an array of tables. -/
def addTable (key : String) (es : Entries) : Option Entries :=
  match es.lookup key with
  | none => some (es ++ [(key, .tables [] [])])
  | some (.tables latest older) => some (put key (.tables [] (latest :: older)) es)
  | some _ => none

mutual

/-- A tree as a document. -/
def Node.toDocument : Node → Document
  | .value d => d
  | .table _ es => .object (fieldsOf es)
  | .tables latest older => .array ((Document.object (fieldsOf latest) :: tablesOf older).reverse)

/-- Entries as fields. -/
def fieldsOf : List (String × Node) → List (String × Document)
  | [] => []
  | (key, n) :: es => (key, n.toDocument) :: fieldsOf es

/-- Tables as documents. -/
def tablesOf : List (List (String × Node)) → List Document
  | [] => []
  | t :: ts => .object (fieldsOf t) :: tablesOf ts

end

/-! ## Values -/

mutual

/-- Reads a value.  `fuel` bounds the number of steps. -/
def value? : (fuel : Nat) → Text → Option (Document × Text)
  | 0, _ => none
  | fuel + 1, cs =>
    match cs with
    | '"' :: _ => (string? cs).map fun (s, r) => (.string s, r)
    | '\'' :: _ => (string? cs).map fun (s, r) => (.string s, r)
    | '[' :: cs => do
      let (ds, rest) ← items? fuel cs
      return (.array ds, rest)
    | '\x7b' :: cs => do
      let (es, rest) ← pairs? fuel [] cs
      return (.object (fieldsOf es), rest)
    | cs => do
      let (word, rest) := scalarWord cs
      return (← scalarOf? word, rest)

/-- Reads the items of an array up to its closing bracket. -/
def items? : (fuel : Nat) → Text → Option (List Document × Text)
  | 0, _ => none
  | fuel + 1, cs => do
    let cs ← skipLines fuel cs
    match cs with
    | ']' :: rest => return ([], rest)
    | cs =>
      let (d, rest) ← value? fuel cs
      match ← skipLines fuel rest with
      | ']' :: rest => return ([d], rest)
      | ',' :: rest =>
        let (ds, rest) ← items? fuel rest
        return (d :: ds, rest)
      | _ => none

/-- Reads the pairs of a table in braces up to its closing brace. -/
def pairs? : (fuel : Nat) → Entries → Text → Option (Entries × Text)
  | 0, _, _ => none
  | fuel + 1, es, cs => do
    let cs ← skipLines fuel cs
    match cs with
    | '\x7d' :: rest => return (es, rest)
    | cs =>
      let (path, rest) ← key? fuel cs
      let rest ← after? '=' rest
      let (d, rest) ← value? fuel (skipGap rest)
      let es ← addValue path d es
      match ← skipLines fuel rest with
      | '\x7d' :: rest => return (es, rest)
      | ',' :: rest => pairs? fuel es rest
      | _ => none

end

/-! ## Statements -/

/-- A statement of a document. -/
inductive Statement
  | pair (path : List String) (d : Document)
  | opening (path : List String)
  | adding (path : List String)

/-- Reads a statement. -/
def statement? (fuel : Nat) (cs : Text) : Option (Statement × Text) :=
  match cs with
  | '[' :: '[' :: cs => do
    let (path, rest) ← key? fuel cs
    return (.adding path, ← after? ']' (← after? ']' rest))
  | '[' :: cs => do
    let (path, rest) ← key? fuel cs
    return (.opening path, ← after? ']' rest)
  | cs => do
    let (path, rest) ← key? fuel cs
    let (d, rest) ← value? fuel (skipGap (← after? '=' rest))
    return (.pair path d, rest)

/-- Reads statements up to the end, one a line. -/
def statements? : (fuel : Nat) → Text → Option (List Statement)
  | 0, _ => none
  | fuel + 1, cs => do
    match ← skipLines (fuel + 1) cs with
    | [] => return []
    | cs =>
      let (s, rest) ← statement? (fuel + 1) cs
      match ← skipComment rest with
      | [] => return [s]
      | rest => return s :: (← statements? fuel (← afterBreak? rest))

/-- Carries out statements; `here` is the path of the open table. -/
def carryOut (here : List String) (es : Entries) : List Statement → Option Entries
  | [] => some es
  | .pair path d :: ss => do carryOut here (← descend (addValue path d) here es) ss
  | .opening path :: ss => do
    let key ← path.getLast?
    carryOut path (← descend (openTable key) path.dropLast es) ss
  | .adding path :: ss => do
    let key ← path.getLast?
    carryOut path (← descend (addTable key) path.dropLast es) ss

end Toml

/-- The document that a text holds. -/
def ofToml? (text : String) : Option Document := do
  let cs := text.toList
  let cs := if cs.head? == some '\uFEFF' then cs.drop 1 else cs
  let es ← Toml.carryOut [] [] (← Toml.statements? (2 * cs.length + 2) cs)
  return .object (Toml.fieldsOf es)

end DesignLint.Document
