import DesignLint.Document.Json

/-!
# Documents in YAML

`Document.ofYaml?` reads a text that holds at most one document.  Nesting is given by brackets
(flow style) or by columns (block style).  Scalars without quotes stay as they are written; what
they stand for is settled where the document is used.
-/

namespace DesignLint.Document.Yaml

/-- A point of a text with its column; `fresh` tells whether only spaces precede it on its line. -/
structure Spot where
  rest : Text
  column : Nat
  fresh : Bool

namespace Spot

/-- The point after one character. -/
def next (s : Spot) : Spot :=
  match s.rest with
  | [] => s
  | c :: cs =>
    if c == '\n' then ⟨cs, 0, true⟩ else ⟨cs, s.column + 1, s.fresh && c == ' '⟩

/-- The point after `n` characters. -/
def skip : Nat → Spot → Spot
  | 0, s => s
  | n + 1, s => skip n s.next

end Spot

/-- White space inside a line. -/
def isGap (c : Char) : Bool := c == ' ' || c == '\t'

/-- Whether a text starts with white space or a line break, or is empty. -/
def blankAhead : Text → Bool
  | [] => true
  | c :: _ => isGap c || c == '\n'

/-- Whether a line that separates documents starts at a point. -/
def atMarker (s : Spot) : Bool :=
  s.column == 0 &&
    (["---".toList, "...".toList].any fun m => m.isPrefixOf s.rest && blankAhead (s.rest.drop 3))

/-- Whether the document ends at a point. -/
def atEnd (s : Spot) : Bool := s.rest == [] || atMarker s

/-- The point after white space on a line. -/
def skipGap (s : Spot) : Spot := s.skip (s.rest.takeWhile isGap).length

/-- The next content, and whether it is on a later line.  `fuel` bounds the number of lines. -/
def content (later : Bool) : (fuel : Nat) → Spot → Bool × Spot
  | 0, s => (later, s)
  | fuel + 1, s =>
    let t := skipGap s
    let t := if t.rest.head? == some '#' then t.skip (t.rest.takeWhile (· != '\n')).length else t
    if t.rest.head? == some '\n' then
      let t := t.next
      if atMarker t then (true, t) else content true fuel t
    else (later, t)

/-- The next content after a point. -/
def nextContent (s : Spot) : Bool × Spot := content false (s.rest.length + 1) s

/-! ## Scalars without quotes -/

/-- A character with a meaning of its own in flow style. -/
def isFlowMark (c : Char) : Bool := c == ',' || c == '[' || c == ']' || c == '\x7b' || c == '\x7d'

/-- A character that no scalar without quotes starts with. -/
def isIndicator (c : Char) : Bool :=
  isFlowMark c || "#&*!|>'\"%@".toList.contains c || c == '\x60'

/-- Whether a scalar without quotes can start here. -/
def startsPlain (flow : Bool) : Text → Bool
  | [] => false
  | c :: cs =>
    if c == '-' || c == '?' || c == ':' then
      !blankAhead cs && !(flow && cs.head?.any isFlowMark)
    else !isIndicator c

/-- The part of a scalar without quotes that is on one line, without blanks at its end. `gap` holds
blanks that have been read but may be at the end. -/
def plainLine (flow : Bool) (gap : Text) : Text → Text
  | [] => []
  | c :: cs =>
    if c == '\n' then []
    else if c == ':' && blankAhead cs then []
    else if flow && isFlowMark c then []
    else if isGap c then
      if cs.head? == some '#' then [] else plainLine flow (gap ++ [c]) cs
    else gap ++ c :: plainLine flow [] cs

/-- What joins two lines of a scalar with `n` line breaks between them. -/
def fold (n : Nat) : Text := if n ≤ 1 then [' '] else List.replicate (n - 1) '\n'

/-- Reads a scalar without quotes over any number of lines; all but the first start in column
`least` or behind it. -/
def plainLines (flow : Bool) (least : Nat) : (fuel : Nat) → Spot → Text × Spot
  | 0, s => ([], s)
  | fuel + 1, s =>
    let line := plainLine flow [] s.rest
    let t := s.skip line.length
    let blanks := t.rest.takeWhile fun c => isGap c || c == '\n'
    let n := blanks.count '\n'
    let u := t.skip blanks.length
    if n == 0 || atEnd u || u.rest.head? == some '#' || (!flow && u.column < least) then (line, t)
    else
      let more := plainLine flow [] u.rest
      if more == [] then (line, t)
      else
        let (rest, v) := plainLines flow least fuel u
        (line ++ fold n ++ rest, v)

/-! ## Scalars in quotes -/

/-- The character that an escape of one letter stands for. -/
def escaped? : Char → Option Char
  | '0' => some '\x00'
  | 'a' => some '\x07'
  | 'b' => some '\x08'
  | 't' => some '\t'
  | '\t' => some '\t'
  | 'n' => some '\n'
  | 'v' => some '\x0b'
  | 'f' => some '\x0c'
  | 'r' => some '\r'
  | 'e' => some '\x1b'
  | ' ' => some ' '
  | '"' => some '"'
  | '/' => some '/'
  | '\\' => some '\\'
  | 'N' => some '\u0085'
  | '_' => some '\u00a0'
  | 'L' => some '\u2028'
  | 'P' => some '\u2029'
  | _ => none

/-- The number of hexadecimal digits of an escape. -/
def codeLength? : Char → Option Nat
  | 'x' => some 2
  | 'u' => some 4
  | 'U' => some 8
  | _ => none

/-- Reads a scalar after its opening quote; gives its text and the point after its closing quote.
-/
def quoted? (quote : Char) : (fuel : Nat) → Spot → Option (Text × Spot)
  | 0, _ => none
  | fuel + 1, s =>
    if atMarker s then none
    else
      match s.rest with
      | [] => none
      | c :: cs =>
        if c == quote then
          if quote == '\'' && cs.head? == some '\'' then do
            let (t, u) ← quoted? quote fuel (s.skip 2)
            return ('\'' :: t, u)
          else some ([], s.next)
        else if c == '\\' && quote == '"' then
          match cs with
          | [] => none
          | '\n' :: cs => quoted? quote fuel (s.skip (2 + (cs.takeWhile isGap).length))
          | d :: cs =>
            match codeLength? d with
            | some n => do
              let ds := cs.take n
              guard (ds.length == n)
              let e ← scalar? (← hexNumber? ds)
              let (t, u) ← quoted? quote fuel (s.skip (2 + n))
              return (e :: t, u)
            | none => do
              let e ← escaped? d
              let (t, u) ← quoted? quote fuel (s.skip 2)
              return (e :: t, u)
        else if isGap c || c == '\n' then
          let blanks := (c :: cs).takeWhile fun c => isGap c || c == '\n'
          let n := blanks.count '\n'
          do
            let (t, u) ← quoted? quote fuel (s.skip blanks.length)
            return ((if n == 0 then blanks else fold n) ++ t, u)
        else do
          let (t, u) ← quoted? quote fuel s.next
          return (c :: t, u)

/-! ## Block scalars -/

/-- How the line breaks at the end of a block scalar are treated. -/
inductive Chomp
  | strip
  | clip
  | keep
deriving DecidableEq

/-- The header of a block scalar. -/
structure BlockHeader where
  literal : Bool
  chomp : Chomp
  indent : Option Nat

/-- Reads the marks after `|` or `>`. -/
def blockMarks (h : BlockHeader) : Text → BlockHeader × Text
  | '+' :: cs => blockMarks { h with chomp := .keep } cs
  | '-' :: cs => blockMarks { h with chomp := .strip } cs
  | c :: cs =>
    if '1' ≤ c && c ≤ '9' && h.indent.isNone then
      blockMarks { h with indent := some (c.toNat - '0'.toNat) } cs
    else (h, c :: cs)
  | [] => (h, [])

/-- The number of line breaks before the next line with content; of each line up to `indent` spaces
are dropped. -/
def blockBreaks (indent : Nat) : (fuel : Nat) → Spot → Nat × Spot
  | 0, s => (0, s)
  | fuel + 1, s =>
    let t := s.skip ((s.rest.take (indent - s.column)).takeWhile (· == ' ')).length
    if t.rest.head? == some '\n' then
      let (n, u) := blockBreaks indent fuel t.next
      (n + 1, u)
    else (0, t)

/-- The indentation of a block scalar: that of its first line with content, or of a longer blank
line before it. -/
def blockIndent (longest : Nat) : List Text → Nat
  | [] => longest
  | l :: ls =>
    let n := (l.takeWhile (· == ' ')).length
    if n == l.length then blockIndent (max longest n) ls else max longest n

/-- Reads the lines of a block scalar.  `pending` is whether a line break waits to be written,
`breaks` the number of further ones, and `led` whether the last line started with a blank. -/
def blockLines (h : BlockHeader) (indent : Nat) (pending : Bool) (breaks : Nat) (led : Bool) :
    (fuel : Nat) → Spot → Text × Spot
  | 0, s => ([], s)
  | fuel + 1, s =>
    if s.rest == [] || s.column != indent || atMarker s then
      let last := if pending && h.chomp != .strip then ['\n'] else []
      (last ++ (if h.chomp == .keep then List.replicate breaks '\n' else []), s)
    else
      let leads := s.rest.head?.any isGap
      let joint :=
        if !pending then []
        else if !h.literal && !led && !leads then if breaks == 0 then [' '] else []
        else ['\n']
      let line := s.rest.takeWhile (· != '\n')
      let t := s.skip line.length
      let broken := t.rest != []
      let (n, u) := blockBreaks indent (t.rest.length + 1) t.next
      let (rest, v) := blockLines h indent broken n leads fuel u
      (joint ++ List.replicate breaks '\n' ++ line ++ rest, v)

/-- Reads a block scalar from its `|` or `>` on; `least` is the least column of its content. -/
def block? (least : Nat) (s : Spot) : Option (Text × Spot) := do
  let literal := s.rest.head? == some '|'
  let (h, rest) := blockMarks ⟨literal, .clip, none⟩ (s.rest.drop 1)
  let t := s.skip (s.rest.length - rest.length)
  let (later, _) := nextContent t
  guard (later || (nextContent t).2.rest == [])
  let u := (t.skip (t.rest.takeWhile (· != '\n')).length).next
  let indent :=
    match h.indent with
    | some n => least - 1 + n
    | none => max (max least 1) (blockIndent 0 (u.rest.splitOn '\n'))
  let (n, v) := blockBreaks indent (u.rest.length + 1) u
  return blockLines h indent false n false (u.rest.length + 1) v

/-! ## Nodes -/

/-- Nodes that have been given a name. -/
abbrev Anchors := List (String × Document)

/-- What a reader of a node gives: the node, the named nodes so far, and the point after it. -/
abbrev Found (α : Type) := α × Anchors × Spot

/-- The marks in front of a node: its name and its tag. -/
structure Properties where
  anchor : Option String
  tag : Option String

/-- Reads a word up to white space, in flow style up to a mark. -/
def word (flow : Bool) (cs : Text) : Text :=
  cs.takeWhile fun c => !(isGap c || c == '\n' || (flow && isFlowMark c))

/-- Reads the marks in front of a node; also tells whether the node is on a later line. -/
def properties (flow : Bool) (p : Properties) (later : Bool) : (fuel : Nat) → Spot →
    Properties × Bool × Spot
  | 0, s => (p, later, s)
  | fuel + 1, s =>
    let go (p : Properties) : Properties × Bool × Spot :=
      let t := s.skip (word flow s.rest).length
      let (crossed, u) := nextContent t
      properties flow p (later || crossed) fuel u
    match s.rest with
    | '&' :: cs => go { p with anchor := some (String.ofList (word flow cs)) }
    | '!' :: _ => go { p with tag := some (String.ofList (word flow s.rest)) }
    | _ => (p, later, s)

/-- A scalar with a tag. -/
def withTag (p : Properties) (d : Document) : Document :=
  match p.tag, d with
  | some "!!str", .plain s => .string s
  | some "!", .plain s => .string s
  | _, d => d

/-- Names a node. -/
def nameNode (p : Properties) (d : Document) (names : Anchors) : Anchors :=
  match p.anchor with
  | some a => (a, d) :: names
  | none => names

/-- Reads a key and the `:` after it, all on one line. -/
def blockKey? (s : Spot) : Option (Document × Spot) := do
  let (key, t) ←
    match s.rest with
    | '"' :: _ => do
      let (k, t) ← quoted? '"' (s.rest.length + 1) s.next
      guard (t.column > s.column)
      some (Document.string (String.ofList k), t)
    | '\'' :: _ => do
      let (k, t) ← quoted? '\'' (s.rest.length + 1) s.next
      guard (t.column > s.column)
      some (Document.string (String.ofList k), t)
    | _ =>
      if startsPlain false s.rest then
        let line := plainLine false [] s.rest
        some (.plain (String.ofList line), s.skip line.length)
      else none
  let t := skipGap t
  guard (t.rest.head? == some ':' && blankAhead (t.rest.drop 1))
  guard (s.rest.length - t.rest.length ≤ 1024)
  return (key, t.next)

/-- Whether an item of a block sequence starts here. -/
def atDash (s : Spot) : Bool := s.rest.head? == some '-' && blankAhead (s.rest.drop 1)

mutual

/-- Reads a node in block style at or after a point.  Its content starts in column `least` or behind
it, the items of a sequence in column `leastDash` or behind it; `inline` tells that the line has
begun with a key.  `fuel` bounds the number of steps. -/
def node? : (fuel : Nat) → (least leastDash : Nat) → (inline : Bool) → Anchors → Spot →
    Option (Found Document)
  | 0, _, _, _, _, _ => none
  | fuel + 1, least, leastDash, inline, names, s =>
    let (later, t) := nextContent s
    let bound (t : Spot) : Nat := if atDash t then leastDash else least
    if atEnd t || (later && t.column < bound t) then some (.plain "", names, s)
    else
      let (p, crossed, u) := properties false ⟨none, none⟩ false (t.rest.length + 1) t
      if atEnd u || (crossed && u.column < bound u) then
        let d := withTag p (.plain "")
        some (d, nameNode p d names, u)
      else do
        let free := !inline || later || crossed
        let (d, names, v) ← body? fuel least free names u
        let d := withTag p d
        return (d, nameNode p d names, v)

/-- Reads the body of a node; `free` tells whether it may be in block style. -/
def body? : (fuel : Nat) → (least : Nat) → (free : Bool) → Anchors → Spot → Option (Found Document)
  | 0, _, _, _, _ => none
  | fuel + 1, least, free, names, s =>
    if atDash s then if free then sequence? fuel s.column [] names s else none
    else if (blockKey? s).isSome then
      if free then mapping? fuel s.column [] names s else none
    else
      match s.rest with
      | '*' :: cs => do
        let name := word false cs
        let d ← names.lookup (String.ofList name)
        return (d, names, s.skip (name.length + 1))
      | '[' :: _ => flowItems? fuel [] names s.next
      | '\x7b' :: _ => flowPairs? fuel [] names s.next
      | '"' :: _ => do
        let (t, u) ← quoted? '"' (s.rest.length + 1) s.next
        return (.string (String.ofList t), names, u)
      | '\'' :: _ => do
        let (t, u) ← quoted? '\'' (s.rest.length + 1) s.next
        return (.string (String.ofList t), names, u)
      | '|' :: _ => do
        let (t, u) ← block? least s
        return (.string (String.ofList t), names, u)
      | '>' :: _ => do
        let (t, u) ← block? least s
        return (.string (String.ofList t), names, u)
      | cs =>
        if startsPlain false cs then
          let (t, u) := plainLines false least (cs.length + 1) s
          some (.plain (String.ofList t), names, u)
        else none

/-- Reads the items of a block sequence in a column. -/
def sequence? : (fuel : Nat) → (column : Nat) → List Document → Anchors → Spot →
    Option (Found Document)
  | 0, _, _, _, _ => none
  | fuel + 1, column, done, names, s => do
    let (d, names, t) ← node? fuel (column + 1) (column + 1) false names s.next
    let (_, u) := nextContent t
    if atEnd u || (u.fresh && u.column < column) then
      return (.array (done ++ [d]), names, u)
    else if u.fresh && u.column == column then
      if atDash u then sequence? fuel column (done ++ [d]) names u
      else return (.array (done ++ [d]), names, u)
    else none

/-- Reads the entries of a block mapping in a column. -/
def mapping? : (fuel : Nat) → (column : Nat) → List (Document × Document) → Anchors → Spot →
    Option (Found Document)
  | 0, _, _, _, _ => none
  | fuel + 1, column, done, names, s => do
    let (key, t) ← blockKey? s
    let (d, names, t) ← node? fuel (column + 1) column true names t
    let (_, u) := nextContent t
    let es := done ++ [(key, d)]
    if atEnd u || (u.fresh && u.column < column) then
      return (.mapping es, names, u)
    else if u.fresh && u.column == column then
      if (blockKey? u).isSome then mapping? fuel column es names u else none
    else none

/-- Reads a node in flow style. -/
def flowNode? : (fuel : Nat) → Anchors → Spot → Option (Found Document)
  | 0, _, _ => none
  | fuel + 1, names, s => do
    let (p, _, s) := properties true ⟨none, none⟩ false (s.rest.length + 1) s
    let (d, names, t) ←
      match s.rest with
      | '*' :: cs => do
        let name := word true cs
        let d ← names.lookup (String.ofList name)
        some (d, names, s.skip (name.length + 1))
      | '[' :: _ => flowItems? fuel [] names s.next
      | '\x7b' :: _ => flowPairs? fuel [] names s.next
      | '"' :: _ => do
        let (t, u) ← quoted? '"' (s.rest.length + 1) s.next
        some (.string (String.ofList t), names, u)
      | '\'' :: _ => do
        let (t, u) ← quoted? '\'' (s.rest.length + 1) s.next
        some (.string (String.ofList t), names, u)
      | cs =>
        if startsPlain true cs then
          let (t, u) := plainLines true 0 (cs.length + 1) s
          some (.plain (String.ofList t), names, u)
        else if cs.head?.any fun c => c == ',' || c == ']' || c == '\x7d' || c == ':' then
          some (.plain "", names, s)
        else none
    let d := withTag p d
    return (d, nameNode p d names, t)

/-- Reads the value after a key in flow style, if there is one. -/
def flowValue? : (fuel : Nat) → Anchors → Spot → Option (Found (Option Document))
  | 0, _, _ => none
  | fuel + 1, names, s =>
    let (_, t) := nextContent s
    match t.rest with
    | ':' :: _ => do
      let (_, u) := nextContent t.next
      let (d, names, v) ← flowNode? fuel names u
      return (some d, names, v)
    | _ => some (none, names, t)

/-- Reads the items of a sequence up to its closing bracket. -/
def flowItems? : (fuel : Nat) → List Document → Anchors → Spot → Option (Found Document)
  | 0, _, _, _ => none
  | fuel + 1, done, names, s => do
    let (_, s) := nextContent s
    match s.rest with
    | ']' :: _ => return (.array done, names, s.next)
    | ',' :: _ => none
    | _ =>
      let (d, names, t) ← flowNode? fuel names s
      let (value, names, t) ← flowValue? fuel names t
      let d := match value with
        | some v => .mapping [(d, v)]
        | none => d
      let (_, t) := nextContent t
      match t.rest with
      | ']' :: _ => return (.array (done ++ [d]), names, t.next)
      | ',' :: _ => flowItems? fuel (done ++ [d]) names t.next
      | _ => none

/-- Reads the entries of a mapping up to its closing brace. -/
def flowPairs? : (fuel : Nat) → List (Document × Document) → Anchors → Spot →
    Option (Found Document)
  | 0, _, _, _ => none
  | fuel + 1, done, names, s => do
    let (_, s) := nextContent s
    match s.rest with
    | '\x7d' :: _ => return (.mapping done, names, s.next)
    | ',' :: _ => none
    | _ =>
      let (key, names, t) ← flowNode? fuel names s
      let (value, names, t) ← flowValue? fuel names t
      let es := done ++ [(key, value.getD (.plain ""))]
      let (_, t) := nextContent t
      match t.rest with
      | '\x7d' :: _ => return (.mapping es, names, t.next)
      | ',' :: _ => flowPairs? fuel es names t.next
      | _ => none

end

/-! ## Documents -/

/-- Drops directives, which end with the line that starts the document. -/
def skipDirectives : (fuel : Nat) → Spot → Option Spot
  | 0, s => some s
  | fuel + 1, s =>
    let (_, t) := nextContent s
    if t.column == 0 && t.rest.head? == some '%' then
      skipDirectives fuel (t.skip (t.rest.takeWhile (· != '\n')).length)
    else some t

/-- Whether nothing but blanks, comments and end marks is left. -/
def endsDocument (s : Spot) : Bool :=
  let (_, t) := nextContent s
  if t.rest == [] then true
  else if "...".toList.isPrefixOf t.rest && atMarker t then (nextContent (t.skip 3)).2.rest == []
  else false

/-- Line breaks of all kinds as line feeds. -/
def unifyBreaks : Text → Text
  | '\r' :: '\n' :: cs => '\n' :: unifyBreaks cs
  | '\r' :: cs => '\n' :: unifyBreaks cs
  | c :: cs => c :: unifyBreaks cs
  | [] => []

end Yaml

/-- The document that a text holds; a text without one stands for an empty scalar. -/
def ofYaml? (text : String) : Option Document := do
  let cs := text.toList
  let cs := Yaml.unifyBreaks (if cs.head? == some '\uFEFF' then cs.drop 1 else cs)
  let start ← Yaml.skipDirectives (cs.length + 1) ⟨cs, 0, true⟩
  let start :=
    if "---".toList.isPrefixOf start.rest && Yaml.atMarker start then start.skip 3 else start
  let (d, _, rest) ← Yaml.node? (4 * cs.length + 8) 0 0 false [] start
  guard (Yaml.endsDocument rest)
  return d

end DesignLint.Document
