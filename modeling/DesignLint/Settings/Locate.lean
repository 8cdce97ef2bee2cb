import DesignLint.Config.Read
import DesignLint.FileTree.Resolve
import DesignLint.Settings.Basic

/-!
# Finding the configuration

A run belongs to a directory: the nearest one, going up from where it starts, that holds a
configuration file or a repository.  `Settings.resolve` reads the configuration there, or the one
that the command line names.
-/

namespace DesignLint

/-- The names of configuration files; the first one that is there counts. -/
def configNames : List String := ["dslint.toml", "dslint.yaml", "dslint.yml", "dslint.json"]

namespace FileTree

/-- Whether a directory holds a configuration file or a repository. -/
def isProject (t : FileTree) (directory : String) : Bool :=
  (configNames ++ [".git"]).any fun name => t.hasPath (Path.join directory name)

/-- The first directory that is a project, going up from a path.  `steps` bounds how far. -/
def projectAbove? (t : FileTree) : (steps : Nat) → (directory : String) → Option String
  | 0, _ => none
  | steps + 1, directory =>
    if t.isProject directory then some directory
    else (Path.parent? directory).bind (t.projectAbove? steps)

/-- The directory that a run belongs to; where it starts if there is no better one. -/
def projectRoot (t : FileTree) (start : String) : String :=
  (t.projectAbove? (start.length + 2) start).getD start

/-- The configuration file in a directory. -/
def configFile? (t : FileTree) (directory : String) : Option String :=
  (configNames.map (Path.join directory)).find? t.hasFile

/-- The configuration file of a run: the given one, seen from the working directory or else from
the directory of the run, or the one in that directory. -/
def configPath (t : FileTree) (root : String) (given : Option String) :
    Except ConfigError String :=
  match given with
  | some p => .ok (if Path.isAbsolute p || t.hasPath p then p else Path.join root p)
  | none =>
    match t.configFile? root with
    | some p => .ok p
    | none => .error .notFound

/-- Reads a configuration file. -/
def readConfig (t : FileTree) (path : String) : Except ConfigError Config :=
  match t.readText path with
  | .ok text => Config.ofText path text
  | .error e => .error (.unreadable path e.message)

end FileTree

/-- The settings of a run. -/
def Settings.resolve (t : FileTree) (o : Overrides) : Except ConfigError Settings := do
  let root := t.projectRoot (o.repoRoot.getD ".")
  let path ← t.configPath root o.config
  let config ← t.readConfig path
  Settings.merge o root path config

end DesignLint
