import DesignLint.Rule.Category

/-!
# Thresholds

What a report has to meet: a least compliance score, and limits on the number of open findings in
slices by category and severity.
-/

namespace DesignLint

/-- The most open findings that a slice may have; a missing category or severity stands for all. -/
structure Limit where
  category : Option Category
  severity : Option Severity
  maxOpen : Nat
deriving DecidableEq, Repr

/-- The name of the slice. -/
def Limit.describe (l : Limit) : String :=
  (l.category.map Category.name).getD "any category" ++ " / " ++
    (l.severity.map Severity.name).getD "any severity"

/-- What a report has to meet; `σ` is the type of its score. -/
structure Thresholds (σ : Type := Float) where
  minScore : Option σ
  limits : List Limit

/-- Thresholds that every report meets. -/
def Thresholds.lenient : Thresholds := ⟨none, []⟩

end DesignLint
