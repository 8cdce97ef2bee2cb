import DesignLint.Fix.Plan

/-!
# Rewriting a text

`rewrite` fixes all findings of a text that can be fixed.  They are taken by position; one whose
plan fails, or has an edit that overlaps an accepted edit, is left alone, and the edits of all
others are carried out together.
-/

namespace DesignLint

/-- What has been accepted so far, findings being known by their index. -/
structure Acceptance where
  edits : List Edit
  applied : List (Nat × Text)
  failed : List (Nat × FixFailure)
deriving DecidableEq, Repr

namespace Acceptance

/-- Nothing yet. -/
def empty : Acceptance := ⟨[], [], []⟩

/-- Whether an edit overlaps an accepted one. -/
def clashes (a : Acceptance) (e : Edit) : Bool := a.edits.any (·.span.overlaps e.span)

/-- Accepts the plan of a finding, or says why not. -/
def add (a : Acceptance) (index : Nat) (plan : Except FixFailure FixPlan) : Acceptance :=
  match plan with
  | .ok p =>
    if p.edits.any a.clashes then { a with failed := a.failed ++ [(index, .overlappingEdit)] }
    else { a with edits := a.edits ++ p.edits, applied := a.applied ++ [(index, p.replacement)] }
  | .error failure => { a with failed := a.failed ++ [(index, failure)] }

end Acceptance

/-- The findings that can be fixed, with their indices, by position. -/
def fixableFindings (fs : List Finding) : List (Nat × Finding) :=
  let indexed := (List.range fs.length).zip fs
  let fixable := indexed.filter fun p => p.2.confidence == some .autoFixable
  fixable.mergeSort fun a b => a.2.site.span.start ≤ b.2.site.span.start

/-- What is accepted of the fixes of some findings. -/
def acceptFixes (g : Registry) (cs : Text) (fs : List Finding) : Acceptance :=
  (fixableFindings fs).foldl (fun a p => a.add p.1 (planFix g cs p.2)) .empty

/-- A rewritten text, with the replacements of the findings that were fixed, and the failures of
those that were not. -/
structure Rewriting where
  text : Text
  applied : List (Nat × Text)
  failed : List (Nat × FixFailure)
deriving DecidableEq, Repr

/-- Fixes the findings of a text. -/
def rewrite (g : Registry) (cs : Text) (fs : List Finding) : Rewriting :=
  let a := acceptFixes g cs fs
  ⟨splice cs a.edits, a.applied, a.failed⟩

end DesignLint
