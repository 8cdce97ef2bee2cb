import DesignLint.CommandLine.Perform

/-!
# The program

The program surveys the part of the disk that a command can touch, carries the command out on that
`FileTree`, and writes the files that the outcome changes.  If one of them cannot be written, the
command is carried out once more on a tree that refuses it, so that the report says what happened.
-/

namespace DesignLint

namespace Disk

/-- A target that no link leads to. -/
def nowhere : String := "\x00"

/-- What is at a location of the disk. -/
def node? (l : Location) : IO (Option FileNode) := do
  let path := (← IO.currentDir) / l.path
  try
    match (← path.symlinkMetadata).type with
    | .dir => return some .directory
    | .file => return some (.file (← IO.FS.readBinFile path))
    | .symlink =>
      let target ← if ← path.pathExists then pure (← IO.FS.realPath path).toString else pure nowhere
      return some (.link target)
    | .other => return none
  catch _ => return none

/-- Surveys everything on the way from a directory along some steps. -/
partial def addSteps (t : FileTree) (place : Location) : List String → IO FileTree
  | [] => return t
  | step :: rest =>
    if step == "." then addSteps t place rest
    else if step == ".." then addSteps t place.dropLast rest
    else do
      let next := place ++ [step]
      match ← node? next with
      | none => return t
      | some (.link target) =>
        addSteps (t.put next (.link target)) (FileTree.start place target)
          (FileTree.steps target ++ rest)
      | some n => addSteps (t.put next n) next rest

/-- Surveys everything on the way along a path. -/
def addPath (t : FileTree) (path : String) : IO FileTree :=
  addSteps t (FileTree.start t.here path) (FileTree.steps path)

/-- The files of a directory that matter to runs in directories below it. -/
def landmarks : List String :=
  configNames ++ [".ignore", ".gitignore", ".jj", ".git", ".git/info/exclude"]

/-- Surveys the landmarks of what a path leads to and of everything above it. -/
def addLandmarks (t : FileTree) (path : String) : IO FileTree := do
  match t.resolve path with
  | .error _ => return t
  | .ok l =>
    (l :: IgnoreChain.above l).foldlM (fun t d =>
      landmarks.foldlM (fun t name => addPath t (Path.join (Location.path d) name)) t) t

/-- Surveys everything below a directory.  `listed` are the directories that have been dealt
with. -/
partial def addBelow (t : FileTree) (listed : List Location) (l : Location) :
    IO (FileTree × List Location) := do
  if listed.contains l then return (t, listed)
  let mut t := t
  let mut listed := l :: listed
  let entries ← try ((← IO.currentDir) / l.path).readDir catch _ => pure #[]
  for e in entries do
    t ← addSteps t l [e.fileName]
    if !prunedDirectories.contains e.fileName then
      match t.resolve (Path.join l.path e.fileName) with
      | .ok target =>
        if (t.node? target).any FileNode.isDirectory then
          (t, listed) ← addBelow t listed target
      | .error _ => pure ()
  return (t, listed)

/-- Surveys what a command with some overrides can touch. -/
def survey (o : Overrides) (jsonOut : Option String) : IO FileTree := do
  let here ← IO.currentDir
  let names := FileTree.steps (toString here)
  let start := o.repoRoot.getD "."
  let t : FileTree := ⟨[], names, []⟩
  let t ← addPath t (toString here)
  let t ← addPath t start
  let t ← addLandmarks t "."
  let t ← addLandmarks t start
  let named := (o.config.toList.flatMap fun p => [p, Path.join (t.projectRoot start) p]) ++
    jsonOut.toList
  let t ← named.foldlM addPath t
  match prepare t o with
  | .error _ => return t
  | .ok (settings, _) =>
    let roots := settings.repoRoot :: settings.paths
    let t ← roots.foldlM addPath t
    let t ← roots.foldlM addLandmarks t
    let walked := if settings.paths.isEmpty then roots else settings.paths
    let found := walked.filterMap fun p => (t.resolve p).toOption
    let (t, _) ← found.foldlM (fun (t, listed) l => addBelow t listed l) (t, [])
    return t

/-- Writes the files in which a tree differs from the one before; gives those that could not be
written. -/
def store (before after : FileTree) : IO (List (Location × FileError)) :=
  after.files.foldlM (fun refusals f => do
    if before.files.lookup f.1 == some f.2 then return refusals
    try
      IO.FS.writeBinFile f.1.path f.2
      return refusals
    catch e => return refusals ++ [(f.1, .other (toString e))]) []

end Disk

/-- What a command sets for a run, and where it writes its report. -/
def Command.targets : Command → Overrides × Option String
  | .version => (.none, none)
  | .scan o jsonOut => (o, jsonOut)
  | .fix o jsonOut _ => (o, jsonOut)
  | .rules repoRoot config _ =>
    ({ Overrides.none with repoRoot := repoRoot, config := config }, none)

/-- Carries out a command on the disk. -/
def Command.performOnDisk (color : Bool) (c : Command) : IO Performance := do
  let (o, jsonOut) := c.targets
  let t ← Disk.survey o jsonOut
  let p := c.perform color t
  match ← Disk.store t p.tree with
  | [] => return p
  | refusals => return c.perform color { t with refusals := refusals }

end DesignLint

open DesignLint in
/-- Carries out the command line. -/
def main (arguments : List String) : IO UInt32 := do
  let color := (← IO.getEnv "NO_COLOR").isNone
  let p ←
    match Invocation.ofArguments arguments with
    | .ok i => i.command.performOnDisk color
    | .error r => pure (r.perform color ⟨[], [], []⟩)
  (← IO.getStdout).putStr p.output
  (← IO.getStderr).putStr p.errors
  return p.code.number.toUInt32
