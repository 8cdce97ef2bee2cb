import DesignLint.FileTree.Basic

/-!
# Paths in a file tree

`FileTree.resolve` follows a path to a location: name by name, through links, up for `..`.  What a
path leads to can then be looked at, listed or read.
-/

namespace DesignLint

namespace FileTree

/-- How many links may be followed on the way to a location. -/
def linkLimit : Nat := 40

/-- The steps of a path; a slash at the end asks for a directory, as a `.` does. -/
def steps (path : String) : List String :=
  let parts := (path.toList.splitOn '/').map String.ofList
  parts.filter (· != "") ++ (if path.toList.getLast? == some '/' then ["."] else [])

/-- The location where a path starts. -/
def start (here : Location) (path : String) : Location := if Path.isAbsolute path then [] else here

/-- Takes steps from the directory `place` up to a link, which `follow` goes on from.  `last` tells
whether a link at the end is followed too. -/
def locateUpTo (t : FileTree) (last : Bool)
    (follow : Location → List String → Except FileError Location) (place : Location) :
    List String → Except FileError Location
  | [] => .ok place
  | step :: rest =>
    if step = "." then t.locateUpTo last follow place rest
    else if step = ".." then t.locateUpTo last follow place.dropLast rest
    else
      let next := place ++ [step]
      match t.node? next with
      | none => .error .notFound
      | some .directory => t.locateUpTo last follow next rest
      | some (.file _) => if rest.isEmpty then .ok next else .error .notDirectory
      | some (.link target) =>
        if rest.isEmpty && !last then .ok next
        else follow (start place target) (steps target ++ rest)

/-- Takes steps from a directory, through so many links at most. -/
def locate (t : FileTree) (last : Bool) : (links : Nat) → (place : Location) →
    (todo : List String) → Except FileError Location
  | 0 => t.locateUpTo last fun _ _ => .error .linkLoop
  | links + 1 => t.locateUpTo last (t.locate last links)

/-- The location that a path leads to. -/
def resolve (t : FileTree) (path : String) : Except FileError Location :=
  if path = "" then .error .notFound
  else t.locate true linkLimit (start t.here path) (steps path)

/-- What is at a location that has been found. -/
def nodeAt (t : FileTree) (l : Location) : Except FileError FileNode :=
  match t.node? l with
  | some n => .ok n
  | none => .error .notFound

/-- What a path leads to. -/
def stat (t : FileTree) (path : String) : Except FileError FileNode := do
  t.nodeAt (← t.resolve path)

/-- What a path leads to, or the link at its end. -/
def linkStat (t : FileTree) (path : String) : Except FileError FileNode :=
  if path = "" then .error .notFound
  else do t.nodeAt (← t.locate false linkLimit (start t.here path) (steps path))

/-- Whether a path leads to anything. -/
def hasPath (t : FileTree) (path : String) : Bool := (t.stat path).isOk

/-- Whether a path leads to a file. -/
def hasFile (t : FileTree) (path : String) : Bool :=
  match t.stat path with
  | .ok (.file _) => true
  | _ => false

/-- The content of a node. -/
def contentOf : FileNode → Except FileError ByteArray
  | .file content => .ok content
  | .directory => .error .isDirectory
  | .link _ => .error .linkLoop

/-- The content of the file that a path leads to. -/
def read (t : FileTree) (path : String) : Except FileError ByteArray := do
  contentOf (← t.stat path)

/-- The text of the file that a path leads to. -/
def readText (t : FileTree) (path : String) : Except FileError String := do
  match String.fromUTF8? (← t.read path) with
  | some s => return s
  | none => .error .notText

/-- The link-free absolute path that a path leads to, or the path itself if it leads nowhere. -/
def canonical (t : FileTree) (path : String) : String :=
  match t.resolve path with
  | .ok l => l.path
  | .error _ => path

/-- Where a file that is written to a path from the directory `place` ends up. -/
def destination (t : FileTree) : (links : Nat) → (place : Location) → (path : String) →
    Except FileError Location
  | 0, _, _ => .error .linkLoop
  | links + 1, place, path =>
    let parts := ((path.toList.splitOn '/').map String.ofList).filter (· != "")
    match parts.getLast? with
    | none => .error (if path = "" then .notFound else .isDirectory)
    | some name => do
      let above ← t.locate true linkLimit (start place path) parts.dropLast
      if !(← t.nodeAt above).isDirectory then .error .notDirectory
      else if path.toList.getLast? = some '/' || name = "." || name = ".." then .error .isDirectory
      else
        match t.node? (above ++ [name]) with
        | some .directory => .error .isDirectory
        | some (.link target) => t.destination links above target
        | _ => return above ++ [name]

/-- Writes a file, which is made if there is none. -/
def write (t : FileTree) (path : String) (content : ByteArray) : Except FileError FileTree := do
  t.replace (← t.destination linkLimit t.here path) content

end FileTree

end DesignLint
