import DesignLint.Gate.Evaluate
import DesignLint.Rule.Listing

/-!
# Reports for a terminal

`Report.summary` lists the findings that a person has to look at, then the fixes, the files that
were left out, the totals and the verdict of the gate.
-/

namespace DesignLint

/-- What fixes are called in a mode. -/
def RunMode.fixHeading : RunMode → String
  | .fix => "Auto-Fixed"
  | _ => "Auto-Fixable"

/-- The replacement of a finding, after the value that it replaces. -/
def Finding.fixText (f : Finding) : String :=
  match f.resolution with
  | none => ""
  | some r =>
    let fix := ((r.applied <|> r.planned).getD "")
    match f.value with
    | some v => v ++ " -> " ++ fix
    | none => fix

/-- The rationale of a finding. -/
def Finding.rationale (f : Finding) : String := (f.resolution.map (·.rationale)).getD ""

/-- A score in per cent, with one place. -/
def percent (score : Float) : String := Decimal.fixed 1 (score * 100) ++ "%"

/-- A finding that a person has to look at, on two lines. -/
def Finding.manualLines (f : Finding) : Styled :=
  .ink .red "✖" ++ .plain " " ++ f.severity.mark ++ .plain " " ++ .bold f.location ++
    .plain (" " ++ f.rule ++ ": " ++ f.rationale ++ "\n    " ++ f.snippet ++ "\n")

/-- What a fix is introduced with in a mode. -/
def RunMode.fixLabel : RunMode → String
  | .fix => "✏️  fixed:"
  | _ => "🔧 fixable:"

/-- A fix on one line. -/
def Finding.fixLine (mode : RunMode) (f : Finding) : Styled :=
  .boldInk .green mode.fixLabel ++
    .plain (" " ++ f.location ++ " " ++ f.rule ++ ": " ++ f.fixText ++ "\n")

/-- A file that was left out, on one line. -/
def Skipped.line (s : Skipped) : Styled :=
  .ink .grey ("⏭️  skipped: " ++ s.path ++ " (" ++ s.reason.message ++ ")") ++ .plain "\n"

/-- The totals on one line. -/
def Report.totals (r : Report) : String :=
  "— Summary — files=" ++ toString r.filesScanned ++ " matches=" ++ toString r.total ++ " " ++
    lowerString r.mode.fixHeading ++ "=" ++ toString r.autoFixed ++ " manual=" ++
    toString r.manualReview ++ " open=" ++ toString r.openCount ++ " score=" ++ percent r.score

/-- A violated threshold with its places. -/
def Violation.lines (v : Violation) : String :=
  "  - " ++ v.reason ++ "\n" ++ String.join (v.locations.map fun l => "      " ++ l ++ "\n")

/-- The verdict of the gate. -/
def gateLines (vs : List Violation) : Styled :=
  if vs.isEmpty then .boldInk .green "✔ compliance gate passed" ++ .plain "\n"
  else
    .boldInk .red "✖ compliance gate failed" ++ .plain "\n" ++
      .plain (String.join (vs.map Violation.lines))

/-- A report for a terminal. -/
def Report.summary (r : Report) (vs : List Violation) : Styled :=
  (r.withConfidence .manualReview).flatMap Finding.manualLines ++
    (r.withConfidence .autoFixable).flatMap (Finding.fixLine r.mode) ++
    r.skipped.flatMap Skipped.line ++ .bold r.totals ++ .plain "\n" ++ gateLines vs

end DesignLint
