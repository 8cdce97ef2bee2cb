import DesignLint.Diff.Compact

/-!
# Unified diffs

`unifiedDiff` writes what distinguishes two texts, as hunks of changed lines with one line of
context around them.  Equal texts have no diff.
-/

namespace DesignLint

/-- The lines of a text, each with its line break; a carriage return is a line break too, alone or
before a line feed. -/
def splitLines (line : Text) : Text → List Text
  | [] => if line == [] then [] else [line]
  | '\r' :: '\n' :: cs => (line ++ ['\r', '\n']) :: splitLines [] cs
  | c :: cs =>
    if c == '\n' || c == '\r' then (line ++ [c]) :: splitLines [] cs
    else splitLines (line ++ [c]) cs

/-- The number of kept lines shown around a change. -/
def contextLines : Nat := 1

/-- Cuts kept lines at the start of a script down to the context. -/
def cutFirst : List Step → List Step
  | .keep o i n :: steps =>
    let cut := n - contextLines
    .keep (o + cut) (i + cut) (n - cut) :: steps
  | steps => steps

/-- Cuts kept lines at the end of a script down to the context. -/
def cutLast (steps : List Step) : List Step :=
  match steps.getLast? with
  | some (.keep o i n) => steps.dropLast ++ [.keep o i (min n contextLines)]
  | _ => steps

/-- Splits a script into hunks where more lines are kept than context is shown for. -/
def splitHunks (hunk : List Step) : List Step → List (List Step)
  | [] =>
    match hunk with
    | [] => []
    | [.keep ..] => []
    | hunk => [hunk]
  | .keep o i n :: steps =>
    if n > 2 * contextLines then
      let cut := n - contextLines
      (hunk ++ [.keep o i contextLines]) ::
        splitHunks [.keep (o + cut) (i + cut) (n - cut)] steps
    else splitHunks (hunk ++ [.keep o i n]) steps
  | step :: steps => splitHunks (hunk ++ [step]) steps

/-- The hunks of a script. -/
def hunksOf (steps : List Step) : List (List Step) := splitHunks [] (cutLast (cutFirst steps))

/-- A range of lines in the head of a hunk; an empty one is named after the line before it. -/
def rangeText (s : Span) : String :=
  let n := s.stop - s.start
  if n == 1 then toString (s.start + 1)
  else toString (if n == 0 then s.start else s.start + 1) ++ "," ++ toString n

/-- A line of a diff with its mark. -/
def markedLine (mark : Char) (line : Text) : Text :=
  let ends := line.getLast? == some '\n' || line.getLast? == some '\r'
  mark :: line ++ (if ends then [] else "\n\\ No newline at end of file\n".toList)

/-- The lines of a step. -/
def Step.lines (old new : Array Text) (s : Step) : List Text :=
  let oldLines := EditScript.part old s.oldRange
  let newLines := EditScript.part new s.newRange
  match s with
  | .keep .. => oldLines.map (markedLine ' ')
  | _ => oldLines.map (markedLine '-') ++ newLines.map (markedLine '+')

/-- A hunk with its head. -/
def hunkText (old new : Array Text) (hunk : List Step) : Text :=
  let range (side : Step → Span) : Span :=
    ⟨((hunk.head?.map side).getD ⟨0, 0⟩).start, ((hunk.getLast?.map side).getD ⟨0, 0⟩).stop⟩
  let head :=
    "@@ -" ++ rangeText (range Step.oldRange) ++ " +" ++ rangeText (range Step.newRange) ++ " @@\n"
  head.toList ++ (hunk.flatMap (Step.lines old new)).flatten

/-- The diff of a file between two texts. -/
def unifiedDiff (path : String) (before after : Text) : String :=
  let old := (splitLines [] before).toArray
  let new := (splitLines [] after).toArray
  let hunks := hunksOf (EditScript.tidy old new)
  if hunks.isEmpty then ""
  else
    "--- a/" ++ path ++ "\n+++ b/" ++ path ++ "\n" ++
      String.ofList (hunks.flatMap (hunkText old new))

end DesignLint
