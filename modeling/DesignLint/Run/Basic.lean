import DesignLint.Report.Aggregate
import DesignLint.Settings.Locate
import DesignLint.Rule.Registry

/-!
# Runs

What a run comes to: a report, with the planned rewrites if they are only to be shown, or a
`RunError`.  Each kind of outcome has an exit code of its own, so that scripts can branch on it.
-/

namespace DesignLint

/-- A planned rewrite of a file. -/
structure Preview where
  path : String
  before : Text
  after : Text
deriving DecidableEq, Repr

/-- What a run comes to. -/
structure RunOutput where
  report : Report
  /-- The planned rewrites by path, if they are only to be shown. -/
  previews : List Preview

/-- Why a run is given up. -/
inductive RunError
  | config (cause : ConfigError)
  | integrity (cause : ReportFlaw)
  | io (path : String) (cause : FileError)
  | cancelled

/-- How an error is reported. -/
def RunError.message : RunError → String
  | .config e => "configuration error: " ++ e.message
  | .integrity e => "report integrity error: " ++ e.message
  | .io path e => "I/O error on " ++ path ++ ": " ++ e.message
  | .cancelled => "run cancelled"

/-- How the program ends. -/
inductive ExitCode
  | passed
  | gateFailed
  | usage
  | internal
  | config
  | cancelled
deriving DecidableEq, Repr

/-- The number of an exit code. -/
def ExitCode.number : ExitCode → Nat
  | .passed => 0
  | .gateFailed => 1
  | .usage => 2
  | .internal => 3
  | .config => 4
  | .cancelled => 130

/-- The exit code for an error. -/
def RunError.exitCode : RunError → ExitCode
  | .config _ => .config
  | .integrity _ => .internal
  | .io .. => .internal
  | .cancelled => .cancelled

/-- The settings and rules of a run; whatever is wrong with a configuration is found here. -/
def prepare (t : FileTree) (o : Overrides) : Except ConfigError (Settings × Registry) := do
  let settings ← Settings.resolve t o
  let rules ← Registry.ofConfig settings.config
  settings.config.thresholds.check
  return (settings, rules)

end DesignLint
