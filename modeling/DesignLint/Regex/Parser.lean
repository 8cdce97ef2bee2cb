import DesignLint.Regex.Property
import DesignLint.Regex.Syntax

/-!
# Reading regular expressions

`Regex.parse` reads the text of a pattern.  Besides characters, classes, alternatives, repetitions
and groups it knows named groups, flags, boundaries of words and texts, nested classes with
intersection, difference and symmetric difference, and named classes; look-around and references to
groups do not exist.
-/

namespace DesignLint.Regex

/-- What makes a text no pattern. -/
inductive ParseError
  | backreference
  | classEscape
  | classRange
  | classUnclosed
  | countEmpty
  | countInvalid
  | countUnclosed
  | escapeEnd
  | escapeUnknown
  | flagInvalid
  | groupName
  | groupUnclosed
  | groupUnopened
  | hexInvalid
  | lookAround
  | nestedTooDeep
  | notText
  | propertyUnknown
  | repetitionMissing
  | tooLarge
  | unicodeOff
  | wordBoundary
deriving DecidableEq, Repr

/-- Why a text is no pattern, in words. -/
def ParseError.describe : ParseError → String
  | .backreference => "backreferences are not supported"
  | .classEscape => "invalid escape sequence found in character class"
  | .classRange => "invalid character class range"
  | .classUnclosed => "unclosed character class"
  | .countEmpty => "repetition quantifier expects a valid decimal"
  | .countInvalid => "invalid repetition count range"
  | .countUnclosed => "unclosed counted repetition"
  | .escapeEnd => "incomplete escape sequence, reached end of pattern prematurely"
  | .escapeUnknown => "unrecognized escape sequence"
  | .flagInvalid => "unrecognized flag"
  | .groupName => "invalid capture group name"
  | .groupUnclosed => "unclosed group"
  | .groupUnopened => "unopened group"
  | .hexInvalid => "invalid hexadecimal digit"
  | .lookAround => "look-around, including look-ahead and look-behind, is not supported"
  | .nestedTooDeep => "exceeded the maximum number of nested parentheses/brackets"
  | .notText => "pattern can match invalid UTF-8"
  | .propertyUnknown => "Unicode property not found"
  | .repetitionMissing => "repetition operator missing expression"
  | .tooLarge => "compiled pattern exceeds the size limit"
  | .unicodeOff => "Unicode not allowed here"
  | .wordBoundary => "special word boundary assertion is unclosed or unrecognized"

/-- The flags in force at a point of a pattern. -/
structure Flags where
  ignoreCase : Bool := false
  multiLine : Bool := false
  dotAll : Bool := false
  swapGreed : Bool := false
  unicode : Bool := true
  carriageReturn : Bool := false
  verbose : Bool := false

/-- How far a reader of a pattern has come. -/
structure ParseState where
  rest : Text
  flags : Flags
  /-- The number of groups opened so far. -/
  groups : Nat
  /-- The named groups, the latest first. -/
  names : List (String × Nat)

/-- A reader of a part of a pattern. -/
abbrev Reader (α : Type) := StateT ParseState (Except ParseError) α

namespace Reader

/-- What follows. -/
def rest : Reader Text := return (← get).rest

/-- The flags in force. -/
def flags : Reader Flags := return (← get).flags

/-- The next character. -/
def peek? : Reader (Option Char) := return (← rest).head?

/-- Replaces what follows. -/
def moveTo (cs : Text) : Reader Unit := modify fun s => { s with rest := cs }

/-- Steps over one character. -/
def bump : Reader Unit := do moveTo ((← rest).drop 1)

/-- A text without blanks and comments in front. -/
def dropSpace (inComment : Bool) : Text → Text
  | [] => []
  | c :: cs =>
    if inComment then dropSpace (c != '\n') cs
    else if isBlank c then dropSpace false cs
    else if c == '#' then dropSpace true cs
    else c :: cs

/-- Steps over blanks and comments where they carry no meaning. -/
def space : Reader Unit := do
  if (← flags).verbose then moveTo (dropSpace false (← rest))

/-- Steps over one character and blanks behind it. -/
def bumpSpace : Reader Unit := do bump; space

/-- Steps over a given text if it follows. -/
def accept (lead : String) : Reader Bool := do
  let cs ← rest
  if lead.toList.isPrefixOf cs then
    moveTo (cs.drop lead.length)
    return true
  return false

/-- Fails unless a character follows, and gives it. -/
def need (e : ParseError) : Reader Char := do
  match ← peek? with
  | some c => return c
  | none => throw e

/-- Steps over one character and blanks, after which another must follow. -/
def bumpNeed (e : ParseError) : Reader Char := do bumpSpace; need e

end Reader

open Reader

/-- A part of a pattern with the depth to which groups, repetitions and the like nest in it. -/
structure Part where
  node : Node
  depth : Nat

/-- How deeply the parts of a pattern may nest. -/
def maxNesting : Nat := 250

/-- How many bytes a compiled pattern may take. -/
def maxWeight : Nat := 10485760

/-! ## Escapes -/

/-- Characters with a meaning of their own. -/
def isMeta (c : Char) : Bool := "\\.+*?()|[]\x7b\x7d^$#&-~".toList.contains c

/-- Characters that a backslash leaves as they are. -/
def isEscapable (c : Char) : Bool :=
  isMeta c || (c.toNat < 128 && !c.isAlphanum && c != '<' && c != '>')

/-- What an escape stands for. -/
inductive Escaped
  | char (c : Char)
  | charClass (c : CharClass)
  | check (a : Assertion)

/-- A hexadecimal digit. -/
def isHex (c : Char) : Bool := c.isDigit || ('a' ≤ c && c ≤ 'f') || ('A' ≤ c && c ≤ 'F')

/-- The value of a hexadecimal number. -/
def hexValue (ds : List Char) : Nat :=
  ds.foldl (fun n d =>
    let v := d.toLower.toNat
    16 * n + (if v ≤ '9'.toNat then v - '0'.toNat else v - 'a'.toNat + 10)) 0

/-- The character with a code point. -/
def codePoint (n : Nat) : Reader Char :=
  if n.isValidChar then return Char.ofNat n else throw .hexInvalid

/-- Reads hexadecimal digits up to a closing brace; `fuel` bounds their number. -/
def readHexBrace : (fuel : Nat) → List Char → Reader (List Char)
  | 0, _ => throw .escapeEnd
  | fuel + 1, ds => do
    let c ← bumpNeed .escapeEnd
    if c == '\x7d' then
      bumpSpace
      return ds.reverse
    if !isHex c then throw .hexInvalid
    readHexBrace fuel (c :: ds)

/-- Reads a fixed number of hexadecimal digits. -/
def readHexDigits : (count : Nat) → List Char → Reader (List Char)
  | 0, ds => return ds.reverse
  | count + 1, ds => do
    let c ← need .escapeEnd
    if !isHex c then throw .hexInvalid
    bumpSpace
    readHexDigits count (c :: ds)

/-- Reads a code point after `\x`, `\u` or `\U`; `count` is the number of digits without braces. -/
def readHex (count : Nat) : Reader Escaped := do
  let c ← bumpNeed .escapeEnd
  let fuel := (← rest).length
  let ds ← if c == '\x7b' then readHexBrace fuel [] else readHexDigits count []
  if ds == [] then throw .hexInvalid
  let n := hexValue ds
  if n ≥ 128 && count == 2 && c != '\x7b' && !(← flags).unicode then throw .notText
  return .char (← codePoint n)

/-- A named class of one letter. -/
def letterClass (unicode : Bool) (c : Char) : CharClass :=
  let named (wide : CharClass) (narrow : String) :=
    if unicode then wide else (CharClass.ofAsciiName? narrow).getD .none
  match c.toLower with
  | 'd' => named .digit "digit"
  | 's' => named .blank "space"
  | _ => named .word "word"

/-- A class in negated form, which without Unicode could match half a character. -/
def negated (c : CharClass) : Reader CharClass := do
  if (← flags).unicode then return .compl c else throw .notText

/-- A class extended by the other case of its members, if case is ignored. -/
def foldClass (c : CharClass) : Reader CharClass := do
  let f ← flags
  if !f.ignoreCase then return c
  return if f.unicode then .folded c else .asciiFolded c

/-- Reads what follows `\b` in braces, if it is the name of a boundary. -/
def readBoundaryName : (fuel : Nat) → List Char → Reader String
  | 0, _ => throw .wordBoundary
  | fuel + 1, ds => do
    let c ← need .wordBoundary
    if c == '\x7d' then
      bump
      return String.ofList ds.reverse
    if !(c.isAlpha || c == '-') then throw .wordBoundary
    bumpSpace
    readBoundaryName fuel (c :: ds)

/-- Reads the rest of `\b`. -/
def readBoundary : Reader Assertion := do
  let ascii := !(← flags).unicode
  let here ← rest
  match here with
  | '\x7b' :: _ =>
    let c ← bumpNeed .wordBoundary
    if !(c.isAlpha || c == '-') then
      moveTo here
      return .wordBoundary ascii
    match ← readBoundaryName here.length [] with
    | "start" => return .wordStart ascii
    | "end" => return .wordEnd ascii
    | "start-half" => return .wordStartHalf ascii
    | "end-half" => return .wordEndHalf ascii
    | _ => throw .wordBoundary
  | _ => return .wordBoundary ascii

/-- Reads the name of a property up to a closing brace; `fuel` bounds its length. -/
def readPropertyName : (fuel : Nat) → List Char → Reader (List Char)
  | 0, _ => throw .escapeEnd
  | fuel + 1, ds => do
    let c ← bumpNeed .escapeEnd
    if c == '\x7d' then
      bump
      return ds.reverse
    readPropertyName fuel (c :: ds)

/-- Splits the name of a property from its value; tells whether the value is to be different. -/
def splitProperty (cs : Text) : Bool × Text × Option Text :=
  match (List.range cs.length).find? (fun i => ['!', '='].isPrefixOf (cs.drop i)) with
  | some i => (true, cs.take i, some (cs.drop (i + 2)))
  | none =>
    let mark := if cs.contains ':' then ':' else '='
    match cs.span (· != mark) with
    | (name, _ :: value) => (false, name, some value)
    | (name, []) => (false, name, none)

/-- Reads a property, from the letter behind the backslash on. -/
def readProperty (isNegated : Bool) : Reader CharClass := do
  let c ← bumpNeed .escapeEnd
  let fuel := (← rest).length
  let name ←
    if c == '\x7b' then readPropertyName fuel []
    else if c == '\\' then throw .propertyUnknown
    else do
      bumpSpace
      pure [c]
  if !(← flags).unicode then throw .unicodeOff
  let (differs, name, value) := splitProperty name
  match CharClass.ofProperty? (String.ofList name) (value.map String.ofList) with
  | none => throw .propertyUnknown
  | some cls =>
    let cls ← foldClass cls
    return if isNegated != differs then .compl cls else cls

/-- Reads an escape, from its backslash on. -/
def readEscape : Reader Escaped := do
  bump
  let c ← need .escapeEnd
  if c.isDigit then throw .backreference
  match c with
  | 'x' => readHex 2
  | 'u' => readHex 4
  | 'U' => readHex 8
  | 'p' | 'P' => return .charClass (← readProperty (c == 'P'))
  | 'd' | 's' | 'w' =>
    bump
    return .charClass (letterClass (← flags).unicode c)
  | 'D' | 'S' | 'W' =>
    bump
    return .charClass (← negated (letterClass (← flags).unicode c))
  | _ =>
    bump
    if isEscapable c then return .char c
    let ascii := !(← flags).unicode
    match c with
    | 'a' => return .char '\x07'
    | 'f' => return .char '\x0c'
    | 't' => return .char '\t'
    | 'n' => return .char '\n'
    | 'r' => return .char '\r'
    | 'v' => return .char '\x0b'
    | 'A' => return .check .textStart
    | 'z' => return .check .textEnd
    | 'b' => return .check (← readBoundary)
    | 'B' => return .check (.noWordBoundary ascii)
    | '<' => return .check (.wordStart ascii)
    | '>' => return .check (.wordEnd ascii)
    | _ => throw .escapeUnknown

/-! ## Classes in brackets -/

/-- An operator between the operands of a class. -/
inductive ClassOp
  | inter
  | diff
  | symDiff

/-- The class of two operands. -/
def ClassOp.apply : ClassOp → CharClass → CharClass → CharClass
  | .inter => .inter
  | .diff => .diff
  | .symDiff => .symDiff

/-- Reads one item of a class: a character, an escape, or a named class. -/
def readClassItem : Reader Escaped := do
  let c ← need .classUnclosed
  if c == '\\' then readEscape
  else
    bump
    return .char c

/-- The character that bounds a range. -/
def Escaped.bound : Escaped → Reader Char
  | .char c => return c
  | _ => throw .classRange

/-- The class of a single character, which without Unicode has to be one byte. -/
def singleClass (c : Char) : Reader CharClass := do
  if c.toNat ≥ 128 && !(← flags).unicode then throw .unicodeOff
  return .single c

/-- The class of an item. -/
def Escaped.toClass : Escaped → Reader CharClass
  | .char c => singleClass c
  | .charClass c => return c
  | .check _ => throw .classEscape

/-- What follows the next character, blanks left out. -/
def peekAfter : Reader (Option Char) := do
  let cs := (← rest).drop 1
  return (if (← flags).verbose then dropSpace false cs else cs).head?

/-- Reads a character, a range of characters, or a named class. -/
def readClassRange : Reader CharClass := do
  let first ← readClassItem
  space
  let c ← need .classUnclosed
  let next ← peekAfter
  if c != '-' || next == some ']' || next == some '-' then first.toClass
  else
    let _ ← bumpNeed .classUnclosed
    let last ← readClassItem
    let a ← first.bound
    let b ← last.bound
    if a.toNat > b.toNat then throw .classRange
    let _ ← singleClass a
    let _ ← singleClass b
    return .ranges [(a.toNat, b.toNat)]

/-- Reads `[:name:]`, if that follows. -/
def readNamedClass? : Reader (Option CharClass) := do
  let here ← rest
  match here with
  | '[' :: ':' :: cs =>
    let (isNegated, cs) :=
      match cs with
      | '^' :: cs => (true, cs)
      | cs => (false, cs)
    let (name, after) := cs.span (· != ':')
    match after, CharClass.ofAsciiName? (String.ofList name) with
    | ':' :: ']' :: after, some c =>
      moveTo after
      let c ← foldClass c
      return some (← if isNegated then negated c else pure c)
    | _, _ => return none
  | _ => return none

/-- Reads hyphens at the front of a class. -/
def readHyphens : (fuel : Nat) → CharClass → Bool → Reader (CharClass × Bool)
  | 0, c, any => return (c, any)
  | fuel + 1, c, any => do
    if (← need .classUnclosed) == '-' then
      let _ ← bumpNeed .classUnclosed
      readHyphens fuel (.union c (.single '-')) true
    else return (c, any)

/-- Combines a finished operand with the operand and operator before it. -/
def combine (left : Option (CharClass × ClassOp)) (right : CharClass) : Reader CharClass := do
  match left with
  | none => return right
  | some (l, op) => return op.apply (← foldClass l) (← foldClass right)

mutual

/-- Reads a class in brackets, from its opening bracket on; gives the depth of its nesting too. -/
def readClass : (fuel : Nat) → Reader (CharClass × Nat)
  | 0 => throw .classUnclosed
  | fuel + 1 => do
    let c ← bumpNeed .classUnclosed
    let isNegated := c == '^'
    if isNegated then let _ ← bumpNeed .classUnclosed
    let (items, any) ← readHyphens fuel .none false
    let items ←
      if !any && (← need .classUnclosed) == ']' then
        let _ ← bumpNeed .classUnclosed
        pure (CharClass.union items (.single ']'))
      else pure items
    let (cls, depth) ← readClassItems fuel none items 0
    let cls ← foldClass cls
    let cls ← if isNegated then negated cls else pure cls
    return (cls, depth + 1)

/-- Reads the items of a class up to its closing bracket. -/
def readClassItems : (fuel : Nat) → Option (CharClass × ClassOp) → CharClass → Nat →
    Reader (CharClass × Nat)
  | 0, _, _, _ => throw .classUnclosed
  | fuel + 1, left, items, depth => do
    space
    let c ← need .classUnclosed
    let operator (op : ClassOp) : Reader (CharClass × Nat) := do
      bump
      bump
      let whole ← combine left items
      readClassItems fuel (some (whole, op)) .none depth
    let second := ((← rest).drop 1).head?
    if c == ']' then
      bump
      return (← combine left items, depth)
    else if c == '[' then
      match ← readNamedClass? with
      | some cls => readClassItems fuel left (.union items cls) depth
      | none =>
        let (cls, inner) ← readClass fuel
        readClassItems fuel left (.union items cls) (max depth inner)
    else if c == '&' && second == some '&' then operator .inter
    else if c == '-' && second == some '-' then operator .diff
    else if c == '~' && second == some '~' then operator .symDiff
    else
      let cls ← readClassRange
      readClassItems fuel left (.union items cls) depth

end

/-! ## Repetitions -/

/-- The greatest number of repetitions that can be written. -/
def maxCount : Nat := Nat.pow 2 32 - 1

/-- Reads digits of a number of repetitions. -/
def readCountDigits : (fuel : Nat) → List Char → Reader (List Char)
  | 0, ds => return ds.reverse
  | fuel + 1, ds => do
    match ← peek? with
    | some c =>
      if c.isDigit then
        bumpSpace
        readCountDigits fuel (c :: ds)
      else return ds.reverse
    | none => return ds.reverse

/-- Reads a number of repetitions with blanks around it. -/
def readCount : Reader Nat := do
  moveTo ((← rest).dropWhile isBlank)
  let ds ← readCountDigits (← rest).length []
  moveTo ((← rest).dropWhile isBlank)
  space
  if ds == [] then throw .countEmpty
  let n := ds.foldl (fun n d => 10 * n + (d.toNat - '0'.toNat)) 0
  if n > maxCount then throw .countInvalid
  return n

/-- Reads the bounds of a counted repetition, from its opening brace to its closing one. -/
def readBounds : Reader (Nat × Option Nat) := do
  let _ ← bumpNeed .countUnclosed
  let least ← readCount
  let c ← need .countUnclosed
  if c == ',' then
    let c ← bumpNeed .countUnclosed
    if c == '\x7d' then return (least, none)
    let most ← readCount
    let c ← need .countUnclosed
    if c != '\x7d' then throw .countUnclosed
    if most < least then throw .countInvalid
    return (least, some most)
  else if c == '\x7d' then return (least, some least)
  else throw .countUnclosed

/-- The bounds of a repetition operator and whether its lazy form was written. -/
def readRepetition (op : Char) : Reader (Nat × Option Nat × Bool) := do
  let (least, most) ←
    match op with
    | '?' => bump; pure (0, some 1)
    | '*' => bump; pure (0, none)
    | '+' => bump; pure (1, none)
    | _ =>
      let bounds ← readBounds
      bumpSpace
      pure bounds
  let isLazy ← accept "?"
  return (least, most, isLazy)

/-! ## Groups and alternatives -/

/-- The characters of a name of a group; `first` tells whether one may start it. -/
def isGroupNameChar (first : Bool) (c : Char) : Bool :=
  c == '_' || (c.isAlpha || (c.toNat ≥ 128 && isWordChar c && !isDecimalDigit c)) ||
    (!first && (c == '.' || c == '[' || c == ']' || c.isDigit || isDecimalDigit c))

/-- Reads the name of a group up to `>`. -/
def readGroupName (index : Nat) : Reader Unit := do
  let (name, after) := (← rest).span (· != '>')
  match name, after with
  | c :: cs, _ :: after =>
    if !isGroupNameChar true c || !cs.all (isGroupNameChar false) then throw .groupName
    let name := String.ofList name
    if (← get).names.any (·.1 == name) then throw .groupName
    modify fun s => { s with rest := after, names := (name, index) :: s.names }
  | _, _ => throw .groupName

/-- Sets one flag. -/
def setFlag (f : Flags) (c : Char) (on : Bool) : Reader Flags :=
  match c with
  | 'i' => return { f with ignoreCase := on }
  | 'm' => return { f with multiLine := on }
  | 's' => return { f with dotAll := on }
  | 'U' => return { f with swapGreed := on }
  | 'u' => return { f with unicode := on }
  | 'R' => return { f with carriageReturn := on }
  | 'x' => return { f with verbose := on }
  | _ => throw .flagInvalid

/-- The flags that a list of flag characters sets; each character may occur once, and a minus sign
needs one behind it. -/
def applyFlags (f : Flags) (on : Bool) (seen : List Char) : List Char → Reader Flags
  | [] => if seen.head? == some '-' then throw .flagInvalid else return f
  | c :: cs => do
    if seen.contains c then throw .flagInvalid
    if c == '-' then applyFlags f false (c :: seen) cs
    else applyFlags (← setFlag f c on) on (c :: seen) cs

/-- A group's opening. -/
inductive Opening
  | capture (index : Nat)
  | plain (flags : Flags)
  /-- Flags for the rest of the enclosing group. -/
  | setFlags (flags : Flags)

/-- Reads the opening of a group, from its bracket on. -/
def readOpening : Reader Opening := do
  bumpSpace
  for lead in ["?=", "?!", "?<=", "?<!"] do
    if ← accept lead then throw .lookAround
  let capture : Reader Nat := do
    let index := (← get).groups + 1
    modify fun s => { s with groups := index }
    return index
  if (← accept "?P<") || (← accept "?<") then
    let index ← capture
    readGroupName index
    return .capture index
  else if ← accept "?" then
    let (items, after) := (← rest).span fun c => c != ':' && c != ')'
    match after with
    | [] => throw (if items == [] then .groupUnclosed else .flagInvalid)
    | c :: after =>
      let f ← applyFlags (← flags) true [] items
      moveTo after
      if c == ')' then
        if items == [] then throw .repetitionMissing
        return .setFlags f
      return .plain f
  else return .capture (← capture)

/-- The node of a literal character under the flags in force. -/
def literal (c : Char) : Reader Node := do
  let f ← flags
  if !f.ignoreCase then return .one (.single c)
  if f.unicode then return .one (.folded (.single c))
  return .one (if c.toNat < 128 then .asciiFolded (.single c) else .single c)

/-- The node of a single character of the pattern: a dot, an anchor, an escape or a literal. -/
def readAtom (c : Char) : Reader Node := do
  let f ← flags
  match c with
  | '\\' =>
    match ← readEscape with
    | .char c => literal c
    | .charClass c => return .one c
    | .check a => return .check a
  | '.' =>
    bump
    if !f.unicode then throw .notText
    if f.dotAll then return .one .any
    let breaks := if f.carriageReturn then [(10, 10), (13, 13)] else [(10, 10)]
    return .one (.compl (.ranges breaks))
  | '^' =>
    bump
    return .check (if !f.multiLine then .textStart
      else if f.carriageReturn then .anyLineStart else .lineStart)
  | '$' =>
    bump
    return .check (if !f.multiLine then .textEnd
      else if f.carriageReturn then .anyLineEnd else .lineEnd)
  | c =>
    bump
    literal c

/-- Items one after the other; the list holds them in reverse, and an entry without a part stands
for flags. -/
def sequence (items : List (Option Part)) : Part :=
  match items with
  | [] => ⟨.empty, 0⟩
  | [some p] => p
  | [none] => ⟨.empty, 0⟩
  | items =>
    let parts := items.reverse.filterMap id
    ⟨parts.foldr (fun p n => if n matches .empty then p.node else .seq p.node n) .empty,
      1 + parts.foldl (fun d p => max d p.depth) 0⟩

mutual

/-- Reads alternatives up to the end of the group or of the pattern. -/
def readAlternatives : (fuel : Nat) → Reader Part
  | 0 => throw .groupUnclosed
  | fuel + 1 => do
    let first ← readSequence fuel []
    if (← peek?) == some '|' then
      bump
      let second ← readAlternatives fuel
      let inner := match second.node with | .alt _ _ => second.depth - 1 | _ => second.depth
      return ⟨.alt first.node second.node, 1 + max first.depth inner⟩
    return first

/-- Reads items up to `|`, the end of the group or of the pattern. -/
def readSequence : (fuel : Nat) → List (Option Part) → Reader Part
  | 0, _ => throw .groupUnclosed
  | fuel + 1, items => do
    space
    match ← peek? with
    | none => return sequence items
    | some c =>
      if c == '|' || c == ')' then return sequence items
      else if c == '(' then
        match ← readOpening with
        | .setFlags f =>
          modify fun s => { s with flags := f }
          readSequence fuel (none :: items)
        | .plain f =>
          let outer ← flags
          modify fun s => { s with flags := f }
          let p ← readAlternatives fuel
          if !(← accept ")") then throw .groupUnclosed
          modify fun s => { s with flags := outer }
          readSequence fuel (some ⟨p.node, p.depth + 1⟩ :: items)
        | .capture index =>
          let outer ← flags
          let p ← readAlternatives fuel
          if !(← accept ")") then throw .groupUnclosed
          modify fun s => { s with flags := outer }
          readSequence fuel (some ⟨.group index p.node, p.depth + 1⟩ :: items)
      else if c == '?' || c == '*' || c == '+' || c == '\x7b' then
        match items with
        | some p :: items =>
          let (least, most, isLazy) ← readRepetition c
          let greedy := isLazy == (← flags).swapGreed
          readSequence fuel (some ⟨.loop least most greedy p.node, p.depth + 1⟩ :: items)
        | _ => throw .repetitionMissing
      else if c == '[' then
        let (cls, depth) ← readClass fuel
        readSequence fuel (some ⟨.one cls, depth⟩ :: items)
      else
        let node ← readAtom c
        readSequence fuel (some ⟨node, 0⟩ :: items)

end

/-- A parsed pattern: its node and the numbers of its named groups. -/
structure Parsed where
  node : Node
  names : List (String × Nat)

/-- Reads the text of a pattern. -/
def parse (pattern : Text) : Except ParseError Parsed := do
  let start : ParseState := ⟨pattern, {}, 0, []⟩
  let (p, s) ← (readAlternatives (2 * pattern.length + 2)).run start
  if s.rest != [] then throw .groupUnopened
  if p.depth > maxNesting then throw .nestedTooDeep
  if p.node.weight > maxWeight then throw .tooLarge
  return ⟨p.node, s.names⟩

end DesignLint.Regex
