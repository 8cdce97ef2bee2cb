import DesignLint.Config.Basic
import DesignLint.Report.Format

/-!
# Settings of a run

`Overrides` is what the command line sets; `Settings` is what holds for a run, once the command
line, the configuration and the defaults have been merged in this order.
-/

namespace DesignLint

/-- What the command line sets; what is absent or empty is left to the configuration. -/
structure Overrides where
  repoRoot : Option String
  config : Option String
  paths : List String
  excluded : List String
  reportFormat : Option String
  jobs : Option Nat
deriving DecidableEq, Repr

/-- Overrides that set nothing. -/
def Overrides.none : Overrides := ⟨.none, .none, [], [], .none, .none⟩

/-- What holds for a run. -/
structure Settings where
  repoRoot : String
  configPath : String
  /-- Where the walk begins. -/
  paths : List String
  included : List String
  excluded : List String
  extensions : List String
  maxFileSize : Nat
  jobs : Nat
  reportFormat : ReportFormat
  config : Config

namespace Settings

/-- The extensions of the files that are read if none are configured. -/
def defaultExtensions : List String :=
  ["tsx", "jsx", "ts", "js", "mjs", "cjs", "css", "scss", "sass", "less", "pcss"]

/-- The size in bytes up to which files are read if none is configured. -/
def defaultMaxFileSize : Nat := 1048576

/-- An extension as it is compared: in lower case and without dots in front. -/
def extensionOf (s : String) : String :=
  lowerString (String.ofList (s.toList.dropWhile (· == '.')))

/-- Merges what the command line sets into a configuration that was found. -/
def merge (o : Overrides) (repoRoot configPath : String) (c : Config) :
    Except ConfigError Settings := do
  let paths := if o.paths.isEmpty then c.paths.getD ["."] else o.paths
  let reportFormat ←
    match o.reportFormat <|> c.reportFormat with
    | some s => ReportFormat.ofText s
    | none => .ok .human
  return {
    repoRoot := repoRoot
    configPath := configPath
    paths := paths.map (Path.join repoRoot)
    included := c.included.getD []
    excluded := c.excluded.getD [] ++ o.excluded
    extensions := (c.extensions.getD defaultExtensions).map extensionOf
    maxFileSize := c.maxFileSize.getD defaultMaxFileSize
    jobs := (o.jobs <|> c.jobs).getD 0
    reportFormat := reportFormat
    config := c }

end Settings

end DesignLint
