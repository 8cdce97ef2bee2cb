import DesignLint.Walk.Entries

/-!
# Candidates

A file that a walk reaches along several paths is read once.  Of its paths, one that passes through
no link comes first, then the least; `Selection.candidates` lists these paths in order.
-/

namespace DesignLint

/-- A path of a walk with the file that it leads to. -/
structure Candidate where
  path : String
  /-- The link-free path of the file. -/
  target : String
  /-- Whether the path passes through no link. -/
  direct : Bool
deriving DecidableEq, Repr

namespace Candidate

/-- Whether a candidate stays when another leads to the same file. -/
def precedes (a b : Candidate) : Bool :=
  (a.direct && !b.direct) || (a.direct == b.direct && Path.le a.path b.path)

/-- Adds a candidate, or puts it in place of one that leads to the same file and does not precede
it. -/
def insert (c : Candidate) : List Candidate → List Candidate
  | [] => [c]
  | d :: ds =>
    if Path.same d.target c.target then (if d.precedes c then d else c) :: ds else d :: insert c ds

end Candidate

namespace Selection

/-- The candidate that a path is. -/
def candidate (s : Selection) (t : FileTree) (path : String) : Candidate :=
  let target := t.canonical path
  ⟨path, target, Path.same target (Path.join (t.canonical s.base) (s.shown path))⟩

/-- The paths to read for some paths of a walk, in order. -/
def chosen (s : Selection) (t : FileTree) (paths : List String) : List String :=
  let kept := paths.foldl (fun cs p => (s.candidate t p).insert cs) []
  (kept.map (·.path)).mergeSort Path.le

/-- The files to read, in order. -/
def candidates (s : Selection) (t : FileTree) : List String :=
  let files := (s.entries t).filterMap fun
    | .ok p => some p
    | .error _ => none
  s.chosen t files

/-- What could not be walked. -/
def walkSkips (s : Selection) (t : FileTree) : List Skipped :=
  (s.entries t).filterMap fun
    | .ok _ => none
    | .error e => some e

/-- How many bytes are searched for a zero byte. -/
def sniffLength : Nat := 8192

/-- Whether the front of some content holds a zero byte. -/
def looksBinary (content : ByteArray) : Bool :=
  (content.extract 0 sniffLength).data.contains 0

/-- Reads a file, unless it is too large or not text. -/
def load (s : Selection) (t : FileTree) (path : String) : Except Skipped Source :=
  let skip (r : SkipReason) : Except Skipped Source := .error ⟨s.shown path, r⟩
  match t.stat path with
  | .error e => skip (.unreadable e.message)
  | .ok node =>
    match FileTree.contentOf node with
    | .error e => skip (.unreadable e.message)
    | .ok content =>
      if content.size > s.maxFileSize then skip (.tooLarge s.maxFileSize)
      else if looksBinary content then skip .binary
      else
        match String.fromUTF8? content with
        | some text => .ok ⟨s.shown path, text.toList, .ofPath path⟩
        | none => skip .binary

end Selection

end DesignLint
