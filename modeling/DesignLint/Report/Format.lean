import DesignLint.Config.Basic
import DesignLint.Source

/-!
# Formats of reports
-/

namespace DesignLint

/-- The formats that reports are written in. -/
inductive ReportFormat
  | human
  | json
  | markdown
deriving DecidableEq, Repr

/-- Reads the name of a format, regardless of case and of blanks around it. -/
def ReportFormat.ofText (s : String) : Except ConfigError ReportFormat :=
  let name := String.ofList (Text.lower (Text.trim s.toList))
  if name == "human" || name == "text" then .ok .human
  else if name == "json" then .ok .json
  else if name == "markdown" || name == "md" then .ok .markdown
  else .error (.invalidOption (.reportFormat name))

end DesignLint
