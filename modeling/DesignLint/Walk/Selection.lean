import DesignLint.Settings.Basic

/-!
# Selecting files

A `Selection` says where files are looked for and which of them count: by extension, by patterns
that a file has to match, and by patterns that it must not match.
-/

namespace DesignLint

/-- Where files are looked for and which of them count. -/
structure Selection where
  /-- The directory that files are reported relative to. -/
  base : String
  roots : List String
  /-- What has to match one of these patterns, unless there are none. -/
  included : List Glob
  /-- What must not match any of these patterns. -/
  excluded : List Glob
  extensions : List String
  maxFileSize : Nat
deriving DecidableEq, Repr

namespace Selection

/-- Reads the patterns of an option. -/
def readGlobs (option : String) (sources : List String) : Except ConfigError (List Glob) :=
  sources.mapM fun s =>
    (Glob.ofText s.toList).mapError fun e => .invalidOption (.glob option s e)

/-- A selection; if there is no root, the walk begins at `base`. -/
def make (base : String) (roots included excluded extensions : List String) (maxFileSize : Nat) :
    Except ConfigError Selection := do
  let roots := if roots.isEmpty then [base] else roots
  let included ← readGlobs "include" included
  let excluded ← readGlobs "exclude" excluded
  return ⟨base, roots, included, excluded, extensions, maxFileSize⟩

/-- The selection of a run. -/
def ofSettings (s : Settings) : Except ConfigError Selection :=
  make s.repoRoot s.paths s.included s.excluded s.extensions s.maxFileSize

/-- How a path is reported. -/
def shown (s : Selection) (path : String) : String := Path.shown s.base path

/-- Whether the extension of a path counts, regardless of case. -/
def hasExtension (s : Selection) (path : String) : Bool :=
  match Path.extension? path with
  | some e => s.extensions.any fun x => lowerString x == lowerString e
  | none => false

/-- Whether a pattern matches a path as it is reported, or its last component. -/
def hits (s : Selection) (path : String) (g : Glob) : Bool :=
  g.matches? (s.shown path).toList || g.matches? ((Path.fileName? path).getD "").toList

/-- Whether a file counts. -/
def selects (s : Selection) (path : String) : Bool :=
  s.hasExtension path && (s.included.isEmpty || s.included.any (s.hits path)) &&
    !s.excluded.any (s.hits path)

end Selection

end DesignLint
