import DesignLint.Text.Basic

/-!
# Patterns of ignore files

An `IgnorePattern` is read from the text of a line and matched against the bytes of a path.  `?`
stands for a byte and `*` for bytes other than a slash, `[…]` for a byte of a set, `{…,…}` for
alternatives, and `**` as a whole component for any number of components.  A backslash takes the
next character literally, and a bracket that is never closed stands for itself.
-/

namespace DesignLint

/-- Bytes of a path. -/
abbrev Bytes := List UInt8

/-- A part of a pattern. -/
inductive IgnoreToken
  | literal (bytes : Bytes)
  | anyByte
  | anyRun
  /-- Any number of components at the front. -/
  | leading
  /-- Everything inside a directory. -/
  | trailing
  /-- A slash, or any components between slashes. -/
  | between
  | oneOf (negated : Bool) (ranges : List (UInt8 × UInt8))
  | choice (alternatives : List (List IgnoreToken))

/-- Why a line is no pattern. -/
inductive IgnoreFlaw
  | invalidRange (first last : Char)
  | unopened
  | unclosed
  | danglingEscape
  /-- The line is not text. -/
  | notText
deriving DecidableEq, Repr

/-- How a flaw is reported. -/
def IgnoreFlaw.message : IgnoreFlaw → String
  | .invalidRange a b =>
    "invalid range; '" ++ String.ofList [a] ++ "' > '" ++ String.ofList [b] ++ "'"
  | .unopened =>
    "unopened alternate group; missing '\x7b' (maybe escape '\x7d' with '[\x7d]'?)"
  | .unclosed =>
    "unclosed alternate group; missing '\x7d' (maybe escape '\x7b' with '[\x7b]'?)"
  | .danglingEscape => "dangling '\\'"
  | .notText => "stream did not contain valid UTF-8"

/-- The bytes of a character. -/
def bytesOfChar (c : Char) : Bytes := (String.ofList [c]).toUTF8.data.toList

/-- The bytes of a text. -/
def bytesOfString (s : String) : Bytes := s.toUTF8.data.toList

namespace IgnorePattern

/-! ### Matching -/

/-- Whether some tail, cut at any point, satisfies `p`. -/
def anyTail (p : Bytes → Bool) : Bytes → Bool
  | [] => p []
  | b :: bs => p (b :: bs) || anyTail p bs

/-- Whether some tail behind a slash satisfies `p`. -/
def tailBehindSlash (p : Bytes → Bool) : Bytes → Bool
  | [] => false
  | b :: bs => (b == 47 && p bs) || tailBehindSlash p bs

/-- Whether some tail satisfies `p` that no slash comes before. -/
def tailInComponent (p : Bytes → Bool) : Bytes → Bool
  | [] => p []
  | b :: bs => p (b :: bs) || (b != 47 && tailInComponent p bs)

/-- Whether bytes start with others and the remainder satisfies `p`. -/
def behind (p : Bytes → Bool) : (front : Bytes) → Bytes → Bool
  | [], bs => p bs
  | _ :: _, [] => false
  | a :: front, b :: bs => a == b && behind p front bs

/-- Whether a byte is in one of some ranges. -/
def inRanges (ranges : List (UInt8 × UInt8)) (b : UInt8) : Bool :=
  ranges.any fun r => r.1 ≤ b && b ≤ r.2

mutual

/-- Whether a part can stand for a front of some bytes whose remainder satisfies `p`. -/
def tokenTakes : IgnoreToken → (Bytes → Bool) → Bytes → Bool
  | .literal front, p, bs => behind p front bs
  | .anyByte, p, bs =>
    match bs with
    | [] => false
    | b :: bs => b != 47 && p bs
  | .anyRun, p, bs => tailInComponent p bs
  | .leading, p, bs => p bs || tailBehindSlash p bs
  | .trailing, p, bs =>
    match bs with
    | [] => false
    | b :: bs => b == 47 && anyTail p bs
  | .between, p, bs =>
    match bs with
    | [] => false
    | b :: bs => b == 47 && (p bs || tailBehindSlash p bs)
  | .oneOf negated ranges, p, bs =>
    match bs with
    | [] => false
    | b :: bs => (inRanges ranges b != negated) && p bs
  | .choice alternatives, p, bs =>
    if alternatives.all (·.isEmpty) then p bs else choiceTakes alternatives p bs

/-- Whether parts, one after the other, can stand for a front of some bytes whose remainder
satisfies `p`. -/
def tokensTake : List IgnoreToken → (Bytes → Bool) → Bytes → Bool
  | [], p, bs => p bs
  | t :: ts, p, bs => tokenTakes t (tokensTake ts p) bs

/-- Whether one of the alternatives that are not empty does so. -/
def choiceTakes : List (List IgnoreToken) → (Bytes → Bool) → Bytes → Bool
  | [], _, _ => false
  | a :: as, p, bs => (!a.isEmpty && tokensTake a p bs) || choiceTakes as p bs

end

/-- Whether a pattern stands for the whole of some bytes. -/
def tokensMatch (ts : List IgnoreToken) (bs : Bytes) : Bool :=
  match ts with
  | [.leading] => true
  | ts => tokensTake ts List.isEmpty bs

/-! ### Reading -/

/-- The part that takes a character literally. -/
def literalOf (c : Char) : IgnoreToken := .literal (bytesOfChar c)

/-- A group that is being read: what comes before it, and its finished alternatives, both last
first. -/
structure OpenGroup where
  before : List IgnoreToken
  finished : List (List IgnoreToken)

/-- What has been read of a pattern. -/
structure Draft where
  /-- The parts of the current alternative, last first. -/
  branch : List IgnoreToken
  /-- The open groups, innermost first. -/
  groups : List OpenGroup
  /-- The character before. -/
  before : Option Char
  /-- Whether a bracket that is never closed has been met. -/
  plainBrackets : Bool

/-- Adds a part. -/
def Draft.add (r : Draft) (t : IgnoreToken) : Draft := { r with branch := t :: r.branch }

/-- Adds a part in place of the last one, unless that one stands for any number of components at
an end. -/
def Draft.merge (r : Draft) (t : IgnoreToken) : Draft :=
  match r.branch with
  | .leading :: _ => r
  | .trailing :: _ => r
  | _ :: ts => { r with branch := t :: ts }
  | [] => { r with branch := [t] }

/-- Reads two stars; gives the part that they add and what follows. -/
def doubleStar (r : Draft) (cs : Text) : Draft × Text :=
  let plain := (r.add .anyRun).add .anyRun
  if r.branch.isEmpty then
    match cs with
    | [] => (r.add .leading, [])
    | '/' :: rest => ({ r.add .leading with before := some '/' }, rest)
    | cs => (plain, cs)
  else if r.before != some '/' && (r.groups.isEmpty || r.before ∉ [some ',', some '\x7b']) then
    (plain, cs)
  else
    match cs with
    | [] => (r.merge .trailing, [])
    | '/' :: rest => ({ r.merge .between with before := some '/' }, rest)
    | c :: rest =>
      if (c == ',' || c == '\x7d') && !r.groups.isEmpty then (r.merge .trailing, c :: rest)
      else (plain, c :: rest)

/-- The ranges of bytes that a range of characters stands for. -/
def rangesOf (r : Char × Char) : List (UInt8 × UInt8) :=
  let single (b : UInt8) : UInt8 × UInt8 := (b, b)
  if r.1 == r.2 then (bytesOfChar r.1).map single
  else
    match (bytesOfChar r.1).reverse, bytesOfChar r.2 with
    | a :: as, b :: bs => as.map single ++ [(a, b)] ++ bs.map single
    | _, _ => []

/-- Reads the inside of a bracket, up to the bracket that closes it.  `ranges` are the ranges read
so far, last first; `open?` tells whether the last one goes on behind a dash.  Absent if the
bracket is never closed. -/
def classRanges (first : Bool) (ranges : List (Char × Char)) (open? : Bool) :
    Text → Option (Except IgnoreFlaw (List (Char × Char) × Text))
  | [] => none
  | c :: cs =>
    if c == ']' && !first then
      some (.ok ((if open? then ('-', '-') :: ranges else ranges).reverse, cs))
    else if c == '-' && !first && !open? then classRanges false ranges true cs
    else
      match open?, ranges with
      | true, (a, _) :: rest =>
        if c < a then some (.error (.invalidRange a c))
        else classRanges false ((a, c) :: rest) false cs
      | _, ranges => classRanges false ((c, c) :: ranges) false cs

/-- Reads the part behind an opening bracket; a bracket that is never closed is taken
literally. -/
def bracket (r : Draft) (cs : Text) : Except IgnoreFlaw (Draft × Text) :=
  let (negated, inside) :=
    match cs with
    | '!' :: cs => (true, cs)
    | '^' :: cs => (true, cs)
    | cs => (false, cs)
  match classRanges true [] false inside with
  | some (.ok (ranges, rest)) =>
    .ok ({ r.add (.oneOf negated (ranges.flatMap rangesOf)) with before := some ']' }, rest)
  | some (.error e) => .error e
  | none => .ok ({ r.add (literalOf '[') with plainBrackets := true, before := some '[' }, cs)

/-- Reads the part that starts with a character; gives what has been read then and what follows. -/
def readPart (r : Draft) (c : Char) (cs : Text) : Except IgnoreFlaw (Draft × Text) :=
  let read (r : Draft) (rest : Text) : Except IgnoreFlaw (Draft × Text) :=
    .ok ({ r with before := some c }, rest)
  match c with
  | '?' => read (r.add .anyByte) cs
  | '*' =>
    match cs with
    | '*' :: cs =>
      let (s, rest) := doubleStar r cs
      .ok (if rest.length < cs.length then s else { s with before := some '*' }, rest)
    | cs => read (r.add .anyRun) cs
  | '[' => if r.plainBrackets then read (r.add (literalOf '[')) cs else bracket r cs
  | '\x7b' => read { r with branch := [], groups := ⟨r.branch, []⟩ :: r.groups } cs
  | '\x7d' =>
    match r.groups with
    | [] => .error .unopened
    | g :: gs =>
      let alternatives := ((r.branch.reverse) :: g.finished).reverse
      read { r with branch := .choice alternatives :: g.before, groups := gs } cs
  | ',' =>
    match r.groups with
    | [] => read (r.add (literalOf ',')) cs
    | g :: gs =>
      read { r with branch := [], groups := ⟨g.before, r.branch.reverse :: g.finished⟩ :: gs } cs
  | '\\' =>
    match cs with
    | [] => .error .danglingEscape
    | d :: cs => .ok ({ r.add (literalOf d) with before := some d }, cs)
  | c => read (r.add (literalOf c)) cs

/-- Reads a pattern to its end.  `fuel` bounds the number of parts. -/
def readParts : (fuel : Nat) → Draft → Text → Except IgnoreFlaw (List IgnoreToken)
  | 0, r, _ => .ok r.branch.reverse
  | _ + 1, r, [] => if r.groups.isEmpty then .ok r.branch.reverse else .error .unclosed
  | fuel + 1, r, c :: cs => do
    let (r, rest) ← readPart r c cs
    readParts fuel r rest

/-- Reads a pattern. -/
def ofText (cs : Text) : Except IgnoreFlaw (List IgnoreToken) :=
  readParts (cs.length + 1) ⟨[], [], none, false⟩ cs

end IgnorePattern

end DesignLint
