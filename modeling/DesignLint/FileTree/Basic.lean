import DesignLint.Path

/-!
# File trees

A `FileTree` holds directories, files and symbolic links.  A `Location` is the list of names that
leads from the root to one of them without passing through a link, so that two things are the same
exactly if their locations are equal.

`FileTree.node?` looks a location up, and `FileTree.put` and `FileTree.erase` change a tree; they
leave all other locations alone.
-/

namespace DesignLint

/-- The names that lead from the root of a tree to a place in it. -/
abbrev Location := List String

/-- What can be at a location. -/
inductive FileNode
  | directory
  | file (content : ByteArray)
  | link (target : String)

/-- Whether a node is a directory. -/
def FileNode.isDirectory : FileNode → Bool
  | .directory => true
  | _ => false

/-- Why a file cannot be reached, read or written. -/
inductive FileError
  | notFound
  | notDirectory
  | isDirectory
  | linkLoop
  | notText
  | other (why : String)
deriving DecidableEq, Repr

/-- How an error is reported. -/
def FileError.message : FileError → String
  | .notFound => "No such file or directory (os error 2)"
  | .notDirectory => "Not a directory (os error 20)"
  | .isDirectory => "Is a directory (os error 21)"
  | .linkLoop => "Too many levels of symbolic links (os error 40)"
  | .notText => "stream did not contain valid UTF-8"
  | .other why => why

/-- Directories, files and links below a root. -/
structure FileTree where
  /-- What lies below the root, by location. -/
  entries : List (Location × FileNode)
  /-- The directory that relative paths start from. -/
  here : Location
  /-- Files that cannot be replaced, and why. -/
  refusals : List (Location × FileError)

/-- The absolute path of a location. -/
def Location.path (l : Location) : String := "/" ++ "/".intercalate l

namespace FileTree

/-- What is at a location. -/
def node? (t : FileTree) (l : Location) : Option FileNode :=
  if l = [] then some .directory else t.entries.lookup l

/-- Puts a node at a location, in place of what is there. -/
def put (t : FileTree) (l : Location) (n : FileNode) : FileTree :=
  if (t.entries.lookup l).isSome then
    { t with entries := t.entries.map fun e => if e.1 = l then (l, n) else e }
  else { t with entries := t.entries ++ [(l, n)] }

/-- Removes a location with everything below it. -/
def erase (t : FileTree) (l : Location) : FileTree :=
  { t with entries := t.entries.filter fun e => !l.isPrefixOf e.1 }

/-- The names in a directory. -/
def names (t : FileTree) (l : Location) : List String :=
  t.entries.filterMap fun e =>
    match e.1.getLast? with
    | some name => if e.1.dropLast = l then some name else none
    | none => none

/-- Replaces the content of a file. -/
def replace (t : FileTree) (l : Location) (content : ByteArray) : Except FileError FileTree :=
  match t.refusals.lookup l with
  | some e => .error e
  | none => .ok (t.put l (.file content))

/-- The files of a tree. -/
def files (t : FileTree) : List (Location × ByteArray) :=
  t.entries.filterMap fun e =>
    match e.2 with
    | .file content => some (e.1, content)
    | _ => none

end FileTree

end DesignLint
