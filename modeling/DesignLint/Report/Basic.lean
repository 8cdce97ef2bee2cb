import DesignLint.Run.Review

/-!
# Reports

A `Report` sums up a run: totals, the findings of every file, and the files that were left out.
-/

namespace DesignLint

/-- Why a file was left out. -/
inductive SkipReason
  | symlinkCycle
  | binary
  | tooLarge (limit : Nat)
  | unreadable (why : String)
deriving DecidableEq, Repr

/-- How a reason is reported. -/
def SkipReason.message : SkipReason → String
  | .symlinkCycle => "symlink cycle"
  | .binary => "binary content"
  | .tooLarge limit => "larger than " ++ toString limit ++ " bytes"
  | .unreadable why => "unreadable: " ++ why

/-- A file that was left out. -/
structure Skipped where
  path : String
  reason : SkipReason
deriving DecidableEq, Repr

/-- The number of findings of one category, severity and confidence. -/
structure Bucket where
  category : Category
  severity : Severity
  confidence : Confidence
  count : Nat
deriving DecidableEq, Repr

/-- Numbers that counts can be turned into. -/
class OfCount (σ : Type) where
  ofCount : Nat → σ

instance : OfCount Float := ⟨Float.ofNat⟩

/-- The summary of a run; `σ` is the type of its score. -/
structure Report (σ : Type := Float) where
  mode : RunMode
  filesScanned : Nat
  filesModified : Nat
  total : Nat
  autoFixed : Nat
  manualReview : Nat
  fixFailed : Nat
  openCount : Nat
  score : σ
  /-- The buckets that are not empty, by category, severity and confidence. -/
  breakdown : List Bucket
  /-- The files with findings and the files that were written, by path. -/
  files : List FileResult
  skipped : List Skipped

namespace Report

variable {σ : Type}

/-- All findings of a report. -/
def findings (r : Report σ) : List Finding := r.files.flatMap (·.findings)

/-- The findings of one confidence. -/
def withConfidence (r : Report σ) (c : Confidence) : List Finding :=
  r.findings.filter (·.confidence == some c)

/-- Whether a finding belongs to a slice; a missing category or severity stands for all. -/
def inSlice (category : Option Category) (severity : Option Severity) (f : Finding) : Bool :=
  category.all (f.category == ·) && severity.all (f.severity == ·)

/-- The findings of a slice that are still there. -/
def openFindings (r : Report σ) (category : Option Category) (severity : Option Severity) :
    List Finding :=
  r.findings.filter fun f => f.isOpen r.mode && inSlice category severity f

end Report

end DesignLint
