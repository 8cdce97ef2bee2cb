import DesignLint.Text.Basic

/-!
# Edit scripts between lines

`EditScript.between` finds how one sequence of lines becomes another.  It strips what both have in
common at their ends, and cuts what is left at a point that a shortest script passes, which two
searches find that walk towards each other along the diagonals of the grid of both sequences.

A script is a list of `Step`s, each with the indices of the lines it starts at.
-/

namespace DesignLint

/-- A step of an edit script over lines of the old and the new text. -/
inductive Step
  | keep (old new length : Nat)
  | delete (old length new : Nat)
  | insert (old new length : Nat)
  /-- Deletes lines and inserts others in their place. -/
  | replace (old oldLength new newLength : Nat)
deriving DecidableEq, Repr, Inhabited

namespace Step

/-- The range of old lines of a step. -/
def oldRange : Step → Span
  | .keep o _ n => ⟨o, o + n⟩
  | .delete o n _ => ⟨o, o + n⟩
  | .insert o _ _ => ⟨o, o⟩
  | .replace o n _ _ => ⟨o, o + n⟩

/-- The range of new lines of a step. -/
def newRange : Step → Span
  | .keep _ i n => ⟨i, i + n⟩
  | .delete _ _ i => ⟨i, i⟩
  | .insert _ i n => ⟨i, i + n⟩
  | .replace _ _ i n => ⟨i, i + n⟩

end Step

namespace EditScript

/-- The lines of a range. -/
def part (lines : Array Text) (s : Span) : List Text := (lines.extract s.start s.stop).toList

/-- The length of the longest common beginning of two lists. -/
def commonFront {α : Type} [BEq α] : List α → List α → Nat
  | a :: as, b :: bs => if a == b then commonFront as bs + 1 else 0
  | _, _ => 0

/-- The number of lines that two ranges have in common at their starts. -/
def commonStart (old new : Array Text) (s t : Span) : Nat :=
  commonFront (part old s) (part new t)

/-- The number of lines that two ranges have in common at their ends. -/
def commonEnd (old new : Array Text) (s t : Span) : Nat :=
  commonFront (part old s).reverse (part new t).reverse

/-- The furthest point reached on each diagonal, the latest entry first. -/
abbrev Frontier := List (Int × Nat)

/-- The furthest point on a diagonal. -/
def Frontier.reach (v : Frontier) (k : Int) : Nat := (v.lookup k).getD 0

/-- Where a walk of `d` edits enters the diagonal `k`. -/
def Frontier.entry (v : Frontier) (d : Nat) (k : Int) : Nat :=
  if k == -(d : Int) || (k != d && v.reach (k - 1) < v.reach (k + 1)) then v.reach (k + 1)
  else v.reach (k - 1) + 1

/-- The ranges that are compared, of `n` old and `m` new lines. -/
structure Grid where
  old : Array Text
  new : Array Text
  oldSpan : Span
  newSpan : Span

namespace Grid

/-- The number of old lines. -/
def n (g : Grid) : Nat := g.oldSpan.stop - g.oldSpan.start

/-- The number of new lines. -/
def m (g : Grid) : Nat := g.newSpan.stop - g.newSpan.start

/-- The difference of the two numbers. -/
def delta (g : Grid) : Int := (g.n : Int) - g.m

/-- Where the walk from the start gets from a point of a diagonal without edits. -/
def slideForward (g : Grid) (k : Int) (x : Nat) : Nat :=
  let y := ((x : Int) - k).toNat
  if x < g.n && y < g.m then
    x + commonStart g.old g.new ⟨g.oldSpan.start + x, g.oldSpan.stop⟩
      ⟨g.newSpan.start + y, g.newSpan.stop⟩
  else x

/-- Where the walk from the end gets from a point of a diagonal without edits. -/
def slideBackward (g : Grid) (k : Int) (x : Nat) : Nat :=
  let y := ((x : Int) - k).toNat
  if x < g.n && y < g.m then
    x + commonEnd g.old g.new ⟨g.oldSpan.start, g.oldSpan.stop - x⟩
      ⟨g.newSpan.start, g.newSpan.stop - y⟩
  else x

/-- Extends the walk from the start on some diagonals; stops where it meets the other one. -/
def forward (g : Grid) (d : Nat) (back : Frontier) : List Int → Frontier →
    Frontier × Option (Nat × Nat)
  | [], v => (v, none)
  | k :: ks, v =>
    let x := v.entry d k
    let reached := g.slideForward k x
    let v := (k, reached) :: v
    let meets := g.delta % 2 != 0 && (k - g.delta).natAbs + 1 ≤ d &&
      g.n ≤ reached + back.reach (-(k - g.delta))
    if meets then (v, some (g.oldSpan.start + x, g.newSpan.start + ((x : Int) - k).toNat))
    else forward g d back ks v

/-- Extends the walk from the end on some diagonals; stops where it meets the other one. -/
def backward (g : Grid) (d : Nat) (front : Frontier) : List Int → Frontier →
    Frontier × Option (Nat × Nat)
  | [], v => (v, none)
  | k :: ks, v =>
    let x := g.slideBackward k (v.entry d k)
    let v := (k, x) :: v
    let meets := g.delta % 2 == 0 && (k - g.delta).natAbs ≤ d &&
      g.n ≤ x + front.reach (-(k - g.delta))
    if meets then (v, some (g.oldSpan.stop - x, g.newSpan.stop - ((x : Int) - k).toNat))
    else backward g d front ks v

/-- The diagonals that a walk of `d` edits ends on, the greatest first. -/
def diagonals (d : Nat) : List Int := (List.range (d + 1)).map fun (i : Nat) => (d : Int) - 2 * i

/-- Looks for a point of a shortest script, with `d` edits on each side at first. -/
def middleFrom (g : Grid) : (fuel : Nat) → (d : Nat) → (front back : Frontier) →
    Option (Nat × Nat)
  | 0, _, _, _ => none
  | fuel + 1, d, front, back =>
    match g.forward d back (diagonals d) front with
    | (_, some p) => some p
    | (front, none) =>
      match g.backward d front (diagonals d) back with
      | (_, some p) => some p
      | (back, none) => middleFrom g fuel (d + 1) front back

/-- A point of a shortest script. -/
def middle? (g : Grid) : Option (Nat × Nat) :=
  g.middleFrom ((g.n + g.m + 1) / 2 + 1) 0 [(1, 0)] [(1, 0)]

end Grid

/-- A step that keeps lines, unless there are none. -/
def keepSome (old new length : Nat) : List Step :=
  if length == 0 then [] else [.keep old new length]

/-- The script between two ranges.  `fuel` bounds the nesting of cuts. -/
def ofRanges (old new : Array Text) : (fuel : Nat) → Span → Span → List Step
  | 0, _, _ => []
  | fuel + 1, s, t =>
    let front := commonStart old new s t
    let first := keepSome s.start t.start front
    let s : Span := ⟨s.start + front, s.stop⟩
    let t : Span := ⟨t.start + front, t.stop⟩
    let back := commonEnd old new s t
    let s : Span := ⟨s.start, s.stop - back⟩
    let t : Span := ⟨t.start, t.stop - back⟩
    let n := s.stop - s.start
    let m := t.stop - t.start
    let changes :=
      if n == 0 && m == 0 then []
      else if m == 0 then [.delete s.start n t.start]
      else if n == 0 then [.insert s.start t.start m]
      else
        match (Grid.mk old new s t).middle? with
        | some (x, y) =>
          ofRanges old new fuel ⟨s.start, x⟩ ⟨t.start, y⟩ ++
            ofRanges old new fuel ⟨x, s.stop⟩ ⟨y, t.stop⟩
        | none => [.delete s.start n t.start, .insert s.start t.start m]
    first ++ changes ++ keepSome s.stop t.stop back

/-- The script between two sequences of lines. -/
def between (old new : Array Text) : List Step :=
  ofRanges old new (old.size + new.size + 1) ⟨0, old.size⟩ ⟨0, new.size⟩

end EditScript

end DesignLint
