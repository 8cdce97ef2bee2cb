import DesignLint.Decimal.Layout
import DesignLint.Report.Basic

/-!
# Integrity of reports

`Report.verify` derives the totals of a report again from its findings, and checks that the
resolution of every finding fits the mode of the run.
-/

namespace DesignLint

/-- What makes the resolution of a finding inconsistent. -/
inductive Inconsistency
  | failedYetFixable
  | noPlan
  | notWritten
  | writtenWithoutWriting
  | fixOnManual
deriving DecidableEq, Repr

/-- How an inconsistency is reported. -/
def Inconsistency.message : Inconsistency → String
  | .failedYetFixable => "auto-fixable match marked as failed"
  | .noPlan => "auto-fixable match has no planned fix"
  | .notWritten => "auto-fixable match was not written"
  | .writtenWithoutWriting => "applied fix recorded without a write"
  | .fixOnManual => "manual-review match carries a fix"

/-- What is wrong with a report; `σ` is the type of its score. -/
inductive ReportFlaw (σ : Type := Float)
  | unresolved (path rule : String) (line : Nat)
  | bucketMismatch (autoFixed manualReview total : Nat)
  | breakdownMismatch (breakdown total : Nat)
  | inconsistent (path rule : String) (line : Nat) (why : Inconsistency)
  | scoreOutOfRange (score : σ)

/-- How a flaw is reported. -/
def ReportFlaw.message : ReportFlaw → String
  | .unresolved path rule line =>
    "match " ++ rule ++ " at " ++ path ++ ":" ++ toString line ++ " has no resolution"
  | .bucketMismatch a m t =>
    "bucket totals do not add up: auto-fixed " ++ toString a ++ " + manual-review " ++ toString m ++
      " != total " ++ toString t
  | .breakdownMismatch b t => "breakdown sums to " ++ toString b ++ ", expected " ++ toString t
  | .inconsistent path rule line why =>
    "match " ++ rule ++ " at " ++ path ++ ":" ++ toString line ++ " is inconsistent: " ++
      why.message
  | .scoreOutOfRange score =>
    "compliance score " ++ Decimal.Layout.plain.write score ++ " is outside [0, 1]"

section

variable {σ : Type}

/-- A finding without resolution, as a flaw. -/
def Finding.unresolved (f : Finding) : ReportFlaw σ := .unresolved f.path f.rule f.lineStart

/-- What makes a resolution inconsistent in a mode. -/
def Resolution.inconsistency? (mode : RunMode) (r : Resolution) : Option Inconsistency :=
  match r.confidence with
  | .autoFixable =>
    if r.failed then some .failedYetFixable
    else if r.planned.isNone then some .noPlan
    else if mode.writes && r.applied.isNone then some .notWritten
    else if !mode.writes && r.applied.isSome then some .writtenWithoutWriting
    else none
  | .manualReview => if r.planned.isSome || r.applied.isSome then some .fixOnManual else none

/-- What is wrong with a finding in a mode. -/
def Finding.flaw? (mode : RunMode) (f : Finding) : Option (ReportFlaw σ) :=
  match f.resolution with
  | none => some f.unresolved
  | some r => (r.inconsistency? mode).map (.inconsistent f.path f.rule f.lineStart)

/-- Checks a report. -/
def Report.verify [OfNat σ 0] [OfNat σ 1] [LE σ] [DecidableLE σ] (r : Report σ) :
    Except (ReportFlaw σ) Unit :=
  let total := r.findings.length
  let breakdown := r.breakdown.foldl (fun n b => n + b.count) 0
  if r.autoFixed + r.manualReview != total || total != r.total then
    .error (.bucketMismatch r.autoFixed r.manualReview r.total)
  else if breakdown != r.total then .error (.breakdownMismatch breakdown r.total)
  else
    match r.findings.findSome? (·.flaw? r.mode) with
    | some flaw => .error flaw
    | none => if 0 ≤ r.score && r.score ≤ 1 then .ok () else .error (.scoreOutOfRange r.score)

end

end DesignLint
