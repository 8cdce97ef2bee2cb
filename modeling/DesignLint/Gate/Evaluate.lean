import DesignLint.Gate.Threshold
import DesignLint.Report.Verify

/-!
# The compliance gate

`evaluate` lists the thresholds that a report violates, the least score first and then the limits in
their order, each with places of open findings.
-/

namespace DesignLint

/-- A violated threshold, with places of open findings; `σ` is the type of scores. -/
inductive Violation (σ : Type := Float)
  | score (actual allowed : σ) (locations : List String)
  | limit (slice : Limit) (count : Nat) (locations : List String)

namespace Violation

/-- The name of the threshold. -/
def threshold {σ : Type} : Violation σ → String
  | .score .. => "min compliance score"
  | .limit l .. => "max open " ++ l.describe

/-- What the report has. -/
def actual {σ : Type} [OfCount σ] : Violation σ → σ
  | .score a .. => a
  | .limit _ n _ => OfCount.ofCount n

/-- What the threshold allows. -/
def allowed {σ : Type} [OfCount σ] : Violation σ → σ
  | .score _ a _ => a
  | .limit l .. => OfCount.ofCount l.maxOpen

/-- The places listed. -/
def locations {σ : Type} : Violation σ → List String
  | .score _ _ ls => ls
  | .limit _ _ ls => ls

/-- How a violation is reported. -/
def reason : Violation → String
  | .score a b _ =>
    "compliance score " ++ Decimal.fixed 3 a ++ " is below " ++ Decimal.fixed 3 b
  | v@(.limit ..) =>
    v.threshold ++ ": " ++ Decimal.Layout.plain.write v.actual ++ " open, " ++
      Decimal.Layout.plain.write v.allowed ++ " allowed"

end Violation

/-- The greatest number of places listed for a threshold. -/
def maxLocations : Nat := 50

section

variable {σ : Type} [LT σ] [DecidableLT σ]

/-- The violation of a least score. -/
def scoreViolation? (r : Report σ) (least : σ) : Option (Violation σ) :=
  if r.score < least then
    some (.score r.score least (((r.openFindings none none).take maxLocations).map (·.location)))
  else none

/-- The violation of a limit. -/
def limitViolation? {σ : Type} (r : Report σ) (l : Limit) : Option (Violation σ) :=
  let fs := r.openFindings l.category l.severity
  if l.maxOpen < fs.length then
    some (.limit l fs.length
      ((fs.take maxLocations).map fun f => f.location ++ " (" ++ f.rule ++ ")"))
  else none

/-- The thresholds that a report violates. -/
def evaluate (t : Thresholds σ) (r : Report σ) : List (Violation σ) :=
  (t.minScore.bind (scoreViolation? r)).toList ++ t.limits.filterMap (limitViolation? r)

end

end DesignLint
