import DesignLint.Report.Verify
import Std.Data.TreeMap

/-!
# Making reports

`Report.aggregate` makes a report of the results of single files, in whatever order they come: it
counts one finding after the other (`Counts.add`), leaves out the files of which there is nothing to
tell, and checks the report.  Scores are computed in any type of numbers that counts can be turned
into; reports are printed with floating-point ones.
-/

namespace DesignLint

/-- The share of findings that are gone: `1 - open / total`, and 1 if there never was any. -/
def complianceScore {σ : Type} [OfCount σ] [OfNat σ 1] [Sub σ] [Div σ]
    (openCount total : Nat) : σ :=
  if total == 0 then 1 else 1 - OfCount.ofCount openCount / OfCount.ofCount total

/-- The order of buckets: by category, severity and confidence. -/
def bucketOrder : Category × Severity × Confidence → Category × Severity × Confidence → Ordering :=
  compareLex (compareOn (·.1.rank)) (compareLex (compareOn (·.2.1.rank)) (compareOn (·.2.2.rank)))

/-- What has been counted of the findings of a run. -/
structure Counts where
  total : Nat
  autoFixed : Nat
  manualReview : Nat
  fixFailed : Nat
  openCount : Nat
  buckets : Std.TreeMap (Category × Severity × Confidence) Nat bucketOrder

namespace Counts

/-- Before the first finding. -/
def zero : Counts := ⟨0, 0, 0, 0, 0, ∅⟩

/-- Counts one more finding with its resolution. -/
def count (mode : RunMode) (c : Counts) (f : Finding) (r : Resolution) : Counts where
  total := c.total + 1
  autoFixed :=
    match r.confidence with
    | .autoFixable => c.autoFixed + 1
    | .manualReview => c.autoFixed
  manualReview :=
    match r.confidence with
    | .autoFixable => c.manualReview
    | .manualReview => c.manualReview + 1
  fixFailed := if r.failed then c.fixFailed + 1 else c.fixFailed
  openCount := if f.isOpen mode then c.openCount + 1 else c.openCount
  buckets := c.buckets.alter (f.category, f.severity, r.confidence) fun n => some (n.getD 0 + 1)

/-- Counts one more finding, which has to be resolved. -/
def add {σ : Type} (mode : RunMode) (c : Counts) (f : Finding) : Except (ReportFlaw σ) Counts :=
  match f.resolution with
  | none => .error f.unresolved
  | some r => .ok (c.count mode f r)

/-- The buckets in their order. -/
def breakdown (c : Counts) : List Bucket :=
  c.buckets.toList.map fun b => ⟨b.1.1, b.1.2.1, b.1.2.2, b.2⟩

end Counts

section

variable {σ : Type} [OfCount σ] [OfNat σ 1] [Sub σ] [Div σ]

/-- The report on findings that were counted. -/
def Counts.report (c : Counts) (mode : RunMode) (filesScanned : Nat) (files : List FileResult)
    (skipped : List Skipped) : Report σ where
  mode := mode
  filesScanned := filesScanned
  filesModified := files.countP (·.written)
  total := c.total
  autoFixed := c.autoFixed
  manualReview := c.manualReview
  fixFailed := c.fixFailed
  openCount := c.openCount
  score := complianceScore c.openCount c.total
  breakdown := c.breakdown
  files := files.filter fun f => !f.findings.isEmpty || f.written
  skipped := skipped

/-- The report on the results of single files. -/
def Report.aggregate [OfNat σ 0] [LE σ] [DecidableLE σ] (mode : RunMode) (filesScanned : Nat)
    (files : List FileResult) (skipped : List Skipped) : Except (ReportFlaw σ) (Report σ) := do
  let files := files.mergeSort fun a b => a.path ≤ b.path
  let skipped := skipped.mergeSort fun a b => a.path ≤ b.path
  let counts ← (files.flatMap (·.findings)).foldlM (Counts.add mode) .zero
  let r := counts.report mode filesScanned files skipped
  r.verify
  return r

end

end DesignLint
