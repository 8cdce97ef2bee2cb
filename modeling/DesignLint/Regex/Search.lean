import DesignLint.Regex.Program
import Std.Data.HashSet

/-!
# Searching with a regular expression

A `Thread` is an address of a program together with a point of the text.  A run keeps a stack of
threads, the preferred one on top, and follows no thread twice to the same address and point; the
first thread to reach the end of the program is the match.  `Program.find?` tries the points of a
text from left to right, so that the leftmost match wins, and among those that start there the
preferred one.  `Program.findAll` goes on behind each match.
-/

namespace DesignLint.Regex

/-- A point of a text: its offset, the character before it, and what follows. -/
structure Point where
  offset : Nat
  before : Option Char
  rest : Text
deriving Repr

namespace Point

/-- The first point of a text. -/
def start (cs : Text) : Point := ⟨0, none, cs⟩

/-- The point after the next character. -/
def next? (p : Point) : Option (Char × Point) :=
  match p.rest with
  | [] => none
  | c :: cs => some (c, ⟨p.offset + c.utf8Size, some c, cs⟩)

end Point

/-- An address of a program, a point of the text, and the offsets recorded so far, the latest
first. -/
structure Thread where
  address : Nat
  point : Point
  slots : List (Nat × Nat)

/-- The threads that one instruction leads to, the preferred one first. -/
def Thread.step (t : Thread) : Instruction → List Thread
  | .one c =>
    match t.point.next? with
    | some (d, p) => if c.has d then [{ t with address := t.address + 1, point := p }] else []
    | none => []
  | .check a =>
    if a.holds t.point.before t.point.rest.head? then [{ t with address := t.address + 1 }] else []
  | .split first second => [{ t with address := first }, { t with address := second }]
  | .jump target => [{ t with address := target }]
  | .save slot =>
    [{ t with address := t.address + 1, slots := (slot, t.point.offset) :: t.slots }]

/-- A compiled pattern. -/
structure Program where
  code : Array Instruction

/-- A match: the span it covers, the recorded offsets, and the point behind it. -/
structure Match where
  span : Span
  slots : List (Nat × Nat)
  after : Point

namespace Match

/-- The span of a group, if the group took part in the match. -/
def group? (m : Match) (index : Nat) : Option Span := do
  let start ← m.slots.lookup (2 * index)
  let stop ← m.slots.lookup (2 * index + 1)
  return ⟨start, stop⟩

end Match

namespace Program

/-- The program of a pattern. -/
def ofNode (p : Node) : Program := ⟨(p.code 0).toArray⟩

/-- A number for an address and a point. -/
def key (p : Program) (t : Thread) : Nat := t.point.offset * (p.code.size + 1) + t.address

/-- Follows the threads of a stack.  `fuel` bounds the number of threads looked at; `seen` holds the
keys of those that have been followed. -/
def run (p : Program) : (fuel : Nat) → List Thread → Std.HashSet Nat →
    Option Thread × Std.HashSet Nat
  | 0, _, seen => (none, seen)
  | _ + 1, [], seen => (none, seen)
  | fuel + 1, t :: stack, seen =>
    if seen.contains (p.key t) then run p fuel stack seen
    else
      let seen := seen.insert (p.key t)
      match p.code[t.address]? with
      | none => (some t, seen)
      | some i => run p fuel (t.step i ++ stack) seen

/-- A bound on the threads that a run over `n` characters can look at. -/
def bound (p : Program) (n : Nat) : Nat := 2 * (p.code.size + 1) * (n + 1) + 2

/-- The leftmost match from a point on. -/
def findFrom (p : Program) (before : Option Char) (offset : Nat) (seen : Std.HashSet Nat) :
    Text → Option Match
  | [] =>
    let start : Point := ⟨offset, before, []⟩
    match p.run (p.bound 0) [⟨0, start, []⟩] seen with
    | (some t, _) => some ⟨⟨offset, t.point.offset⟩, t.slots, t.point⟩
    | (none, _) => none
  | c :: cs =>
    let start : Point := ⟨offset, before, c :: cs⟩
    match p.run (p.bound (cs.length + 1)) [⟨0, start, []⟩] seen with
    | (some t, _) => some ⟨⟨offset, t.point.offset⟩, t.slots, t.point⟩
    | (none, seen) => findFrom p (some c) (offset + c.utf8Size) seen cs

/-- The leftmost match at or after a point. -/
def find? (p : Program) (start : Point) : Option Match :=
  p.findFrom start.before start.offset ∅ start.rest

/-- All matches from a point on, none overlapping an earlier one, and none empty at the end of the
one before it.  `last` is that end; `fuel` bounds the number of matches. -/
def findAllFrom (p : Program) (last : Option Nat) : (fuel : Nat) → Point → List Match
  | 0, _ => []
  | fuel + 1, start =>
    match p.find? start with
    | none => []
    | some m =>
      if m.span.start == m.span.stop && last == some m.span.stop then
        match start.next? with
        | none => []
        | some (_, start) =>
          match p.find? start with
          | none => []
          | some m => m :: findAllFrom p (some m.span.stop) fuel m.after
      else m :: findAllFrom p (some m.span.stop) fuel m.after

/-- All matches in a text, from left to right. -/
def findAll (p : Program) (cs : Text) : List Match :=
  p.findAllFrom none (2 * cs.length + 2) (.start cs)

/-- Whether a text has a match. -/
def matches? (p : Program) (cs : Text) : Bool := (p.find? (.start cs)).isSome

end Program

end DesignLint.Regex
