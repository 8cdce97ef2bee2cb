import DesignLint.Finding.Basic

/-!
# Fixes that are given up

A `FixFailure` is why a finding that could be fixed is not.  Such a finding is demoted: a person has
to look at it after all.
-/

namespace DesignLint

/-- Why a fix is given up. -/
inductive FixFailure
  | noVariantMapping (classes : String)
  | ambiguousVariant (candidates : List String)
  | noTokenMapping (value : String)
  | conflictingAttribute (name : String)
  | missingClosingTag
  | overlappingEdit
  | unsupported
  | writeFailed (why : String)
deriving DecidableEq, Repr

/-- How a failure is reported. -/
def FixFailure.message : FixFailure → String
  | .noVariantMapping classes => "no variant mapping matches classes [" ++ classes ++ "]"
  | .ambiguousVariant candidates =>
    "className maps to conflicting variants: " ++ ", ".intercalate candidates
  | .noTokenMapping value => "no token mapping configured for value '" ++ value ++ "'"
  | .conflictingAttribute name => "element already declares '" ++ name ++ "'"
  | .missingClosingTag => "element has no matching closing tag"
  | .overlappingEdit => "edit overlaps another rewrite in the same file"
  | .unsupported => "rule has no rewrite target for this match"
  | .writeFailed why => "could not write file: " ++ why

/-- Turns a resolution over to a person. -/
def Resolution.demote (failure : FixFailure) : Resolution :=
  ⟨.manualReview, "auto-fix aborted: " ++ failure.message, none, none, true⟩

end DesignLint
