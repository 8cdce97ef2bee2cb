import DesignLint.FileTree.Resolve
import DesignLint.Ignore.Rules

/-!
# Ignore files of a walk

A walk goes from directory to directory.  Each directory on the way, and each directory above the
one where the walk begins, is an `IgnoreLevel` with the rules of its ignore files; together they
are an `IgnoreChain`, innermost first.  Rules for version control count only inside a repository,
and only up to the directory that holds it.
-/

namespace DesignLint

/-- A directory with the rules of its ignore files. -/
structure IgnoreLevel where
  /-- The path of the directory, as the walk writes it. -/
  directory : String
  /-- Whether the directory lies above the one where the walk begins. -/
  above : Bool
  /-- The rules of `.ignore`. -/
  rules : IgnoreRules
  /-- The rules of `.gitignore`. -/
  sharedRules : IgnoreRules
  /-- The rules of the repository that are not shared. -/
  unsharedRules : IgnoreRules
  /-- Whether the directory holds a repository. -/
  repository : Bool

/-- Drops some text at the front, where it is there. -/
def dropFront (front cs : Text) : Text :=
  if front.isPrefixOf cs then cs.drop front.length else cs

/-- Drops `./` at the front. -/
def dropHere (cs : Text) : Text := dropFront ['.', '/'] cs

namespace IgnoreLevel

/-- The rules and errors of an ignore file, none if it cannot be read. -/
def readRules (t : FileTree) (path : String) : IgnoreRules × List IgnoreError :=
  match t.read path with
  | .ok content => IgnoreRules.ofContent path content
  | .error _ => ([], [])

/-- Reads the ignore files of a directory. -/
def ofDirectory (t : FileTree) (directory : String) (above : Bool) :
    IgnoreLevel × List IgnoreError :=
  let inner (name : String) : String := Path.join directory name
  let (rules, errors) := readRules t (inner ".ignore")
  let (sharedRules, sharedErrors) := readRules t (inner ".gitignore")
  let (unsharedRules, unsharedErrors) := readRules t (Path.join (inner ".git") "info/exclude")
  (⟨directory, above, rules, sharedRules, unsharedRules,
    t.hasPath (inner ".git") || t.hasPath (inner ".jj")⟩, errors ++ sharedErrors ++ unsharedErrors)

/-- The directory that rules are relative to. -/
def origin (l : IgnoreLevel) : Text := dropHere l.directory.toList

/-- A path as the rules of a directory see it. -/
def subject (l : IgnoreLevel) (path : Text) : Bytes :=
  let path := dropHere path
  let path :=
    if Path.same (String.ofList l.origin) "." || !path.contains '/' then path
    else if l.origin.isPrefixOf path then dropFront ['/'] (path.drop l.origin.length)
    else path
  bytesOfString (String.ofList path)

end IgnoreLevel

/-- The directories whose rules count in a directory, innermost first. -/
structure IgnoreChain where
  levels : List IgnoreLevel
  /-- The link-free path where the walk begins. -/
  base : Option String

namespace IgnoreChain

/-- Goes into a directory. -/
def enter (t : FileTree) (c : IgnoreChain) (directory : String) : IgnoreChain :=
  { c with levels := (IgnoreLevel.ofDirectory t directory false).1 :: c.levels }

/-- What the rules found so far say, by kind of ignore file. -/
structure Findings where
  own : Option Verdict
  shared : Option Verdict
  unshared : Option Verdict
  /-- Whether the directory of the repository has been passed. -/
  passed : Bool

/-- Asks a directory where no directory further in has had an answer. -/
def ask (inRepository : Bool) (path : Text) (isDirectory : Bool) (f : Findings) (l : IgnoreLevel) :
    Findings :=
  let path := l.subject path
  let counts := inRepository && !f.passed
  let answer (known : Option Verdict) (counts : Bool) (rules : IgnoreRules) : Option Verdict :=
    if known.isNone && counts then rules.verdict? path isDirectory else known
  ⟨answer f.own true l.rules, answer f.shared counts l.sharedRules,
    answer f.unshared counts l.unsharedRules, f.passed || l.repository⟩

/-- The directories of the walk. -/
def inside (c : IgnoreChain) : List IgnoreLevel := c.levels.filter fun l => !l.above

/-- The directories above the walk. -/
def outside (c : IgnoreChain) : List IgnoreLevel := c.levels.filter fun l => l.above

/-- A path as the directories above the walk see it: below the link-free path where the walk
begins. -/
def pathFromAbove (c : IgnoreChain) (base : String) (path : Text) : Text :=
  match c.inside.getLast? with
  | none => (Path.join base (String.ofList path)).toList
  | some first =>
    if Path.same first.directory "." then (Path.join base (String.ofList path)).toList
    else
      let relative := dropFront ['/'] (dropFront first.origin path)
      (Path.join base (String.ofList relative)).toList

/-- What the ignore files say about a path in the innermost directory. -/
def verdict? (c : IgnoreChain) (path : String) (isDirectory : Bool) : Option Verdict :=
  let path := dropHere path.toList
  let inRepository := c.levels.any (·.repository)
  let f := c.inside.foldl (ask inRepository path isDirectory) ⟨none, none, none, false⟩
  let f :=
    match c.base with
    | none => f
    | some base =>
      c.outside.foldl (ask inRepository (c.pathFromAbove base path) isDirectory) f
  f.own <|> f.shared <|> f.unshared

/-- Whether a name is hidden. -/
def isHidden (name : String) : Bool := name.toList.head? == some '.'

/-- Whether a walk passes over a path: because rules say so, or because the name is hidden and no
rule says anything. -/
def passesOver (c : IgnoreChain) (path name : String) (isDirectory : Bool) : Bool :=
  match c.verdict? path isDirectory with
  | some .ignored => true
  | some .kept => false
  | none => isHidden name

/-- The locations above a location, innermost first. -/
def above (l : Location) : List Location := (List.range l.length).reverse.map l.take

/-- The directories above the place where a walk begins, with the errors in the ignore files of
those that are not in `known`. -/
def ofRoot (t : FileTree) (known : List Location) (root : String) :
    IgnoreChain × List Location × List IgnoreError :=
  match t.resolve root with
  | .error _ => (⟨[], none⟩, [], [])
  | .ok l =>
    let read := (above l).map fun d => (d, IgnoreLevel.ofDirectory t (Location.path d) true)
    let errors := read.reverse.flatMap fun r => if known.contains r.1 then [] else r.2.2
    (⟨read.map (·.2.1), some (Location.path l)⟩, above l, errors)

end IgnoreChain

end DesignLint
