import DesignLint.Ignore.Chain
import DesignLint.Report.Basic
import DesignLint.Walk.Selection

/-!
# Walking a file tree

`Selection.entries` lists every file below the roots of a selection that counts, and everything
that could not be walked.  Links are followed, except one to a directory that the walk is in;
hidden files, ignored files and directories that hold no sources are passed over.
-/

namespace DesignLint

/-- Directories that hold what tools install, build or record. -/
def prunedDirectories : List String :=
  ["node_modules", ".git", ".next", ".nuxt", ".turbo", ".vercel", "dist", "build", "out",
    "coverage", "storybook-static"]

/-- What a walk comes across. -/
inductive WalkEntry
  | file (path : String)
  /-- A link to a directory that the walk is in. -/
  | cycle (path : String)
  | broken (path : String) (why : FileError)
  /-- Lines in ignore files above the walk that are no rules. -/
  | badRules (first : IgnoreError) (others : List IgnoreError)
deriving DecidableEq, Repr

/-- What a path in a walk leads to. -/
inductive WalkTarget
  | file
  | directory (place : Location)
  | cycle
  | broken (why : FileError)
deriving DecidableEq, Repr

namespace FileTree

/-- What is at a location, seen from a walk that is in the directories `walked`. -/
def walkTarget (t : FileTree) (walked : List Location) (place : Location) : WalkTarget :=
  match t.node? place with
  | none => .broken .notFound
  | some .directory => .directory place
  | some (.file _) => .file
  | some (.link _) =>
    match t.locate true linkLimit [] place with
    | .error e => .broken e
    | .ok target =>
      match t.node? target with
      | some .directory => if walked.contains target then .cycle else .directory target
      | _ => .file

/-- Walks a directory.  `depth` bounds how deep the walk goes. -/
def walkDirectory (t : FileTree) : (depth : Nat) → (chain : IgnoreChain) →
    (walked : List Location) → (path : String) → List WalkEntry
  | 0, _, _, _ => []
  | depth + 1, chain, walked, path =>
    let place := walked.headD []
    (t.names place).flatMap fun name =>
      let inner := Path.join path name
      match t.walkTarget walked (place ++ [name]) with
      | .file => if chain.passesOver inner name false then [] else [.file inner]
      | .cycle => [.cycle inner]
      | .broken e => [.broken inner e]
      | .directory target =>
        if chain.passesOver inner name true || prunedDirectories.contains name then []
        else t.walkDirectory depth (chain.enter t inner) (target :: walked) inner

/-- A depth that no walk exceeds: between two links on the way it goes down at most once through
every directory, and no two links on the way lead to the same directory. -/
def depthLimit (t : FileTree) : Nat := (t.entries.length + 1) * (t.entries.length + 1)

/-- Walks what a path leads to, which is not passed over. -/
def walkRoot (t : FileTree) (chain : IgnoreChain) (path : String) : List WalkEntry :=
  match t.linkStat path, t.resolve path with
  | .error e, _ => [.broken path e]
  | .ok _, .error e => [.broken path e]
  | .ok _, .ok place =>
    match t.node? place with
    | some .directory => t.walkDirectory t.depthLimit (chain.enter t path) [place] path
    | _ => [.file path]

/-- Walks what some paths lead to, one after the other.  `known` are the directories above the
path before, whose ignore files have been read. -/
def walkRoots (t : FileTree) (known : List Location) : List String → List WalkEntry
  | [] => []
  | path :: paths =>
    let (chain, known, errors) := IgnoreChain.ofRoot t known path
    let bad : List WalkEntry :=
      match errors with
      | [] => []
      | e :: es => [.badRules e es]
    bad ++ t.walkRoot chain path ++ t.walkRoots known paths

end FileTree

/-- Why a path could not be walked. -/
def walkFailure (path : String) (why : FileError) : String :=
  path ++ ": IO error for operation on " ++ path ++ ": " ++ why.message

/-- A file, or what is reported in its place; absent if it does not count. -/
def Selection.entry? (s : Selection) : WalkEntry → Option (Except Skipped String)
  | .file path => if s.selects path then some (.ok path) else none
  | .cycle path => some (.error ⟨s.shown path, .symlinkCycle⟩)
  | .broken path why =>
    some (.error ⟨s.shown path, .unreadable (walkFailure path why)⟩)
  | .badRules first others =>
    let messages := (first :: others).map IgnoreError.message
    some (.error ⟨s.shown first.path, .unreadable ("\n".intercalate messages)⟩)

/-- The files that count below the roots of a selection, with everything that could not be
walked. -/
def Selection.entries (s : Selection) (t : FileTree) : List (Except Skipped String) :=
  (t.walkRoots [] s.roots).filterMap s.entry?

end DesignLint
