import DesignLint.Markup.Element
import DesignLint.Rule.Category
import DesignLint.Style.Site

/-!
# Findings

A `Finding` is one place in a file at which a rule applies, with its position for a reader and,
once it has been triaged, a `Resolution`: whether it can be fixed without a person looking, why, and
what has become of the fix.
-/

namespace DesignLint

/-- Whether a finding can be fixed without a person looking. -/
inductive Confidence
  | autoFixable
  | manualReview
deriving DecidableEq, Repr

namespace Confidence

/-- Both, in the order of reports. -/
def all : List Confidence := [.autoFixable, .manualReview]

/-- The place in the order of reports. -/
def rank : Confidence → Nat
  | .autoFixable => 0
  | .manualReview => 1

/-- How a confidence is written. -/
def name : Confidence → String
  | .autoFixable => "auto-fixable"
  | .manualReview => "manual-review"

/-- The confidence that is written in a given way. -/
def ofName? (s : String) : Option Confidence := all.find? (·.name == s)

end Confidence

/-- What is done with fixes. -/
inductive RunMode
  /-- They are planned. -/
  | scan
  /-- They are planned and shown. -/
  | dryRun
  /-- They are written. -/
  | fix
deriving DecidableEq, Repr

namespace RunMode

/-- How a mode is written. -/
def name : RunMode → String
  | .scan => "scan"
  | .dryRun => "dry-run"
  | .fix => "fix"

/-- Whether fixes are written. -/
def writes (m : RunMode) : Bool := m == .fix

end RunMode

/-- What has become of a finding. -/
structure Resolution where
  confidence : Confidence
  rationale : String
  /-- What replaces the finding, once that is known. -/
  planned : Option String
  /-- What replaces the finding, once the file says so. -/
  applied : Option String
  /-- Whether a fix was tried and given up. -/
  failed : Bool
deriving DecidableEq, Repr

namespace Resolution

/-- A finding that can be fixed. -/
def fixable (why : String) : Resolution := ⟨.autoFixable, why, none, none, false⟩

/-- A finding that a person has to look at. -/
def manual (why : String) : Resolution := ⟨.manualReview, why, none, none, false⟩

end Resolution

/-- The place of a finding. -/
inductive Site
  | element (e : Element)
  | value (v : ValueSite)
deriving DecidableEq, Repr

namespace Site

/-- The span that stands for a place when places are compared: the opening tag, or the value. -/
def span : Site → Span
  | .element e => e.tag
  | .value v => v.span

/-- Whether a place is an element. -/
def isElement : Site → Bool
  | .element _ => true
  | .value _ => false

end Site

/-- One place at which a rule applies. -/
structure Finding where
  path : String
  rule : String
  category : Category
  severity : Severity
  lineStart : Nat
  lineEnd : Nat
  columnStart : Nat
  snippet : String
  /-- The attributes of an element, each name once, ordered by name. -/
  attributes : List (String × AttributeValue)
  /-- The value, unless the place is an element. -/
  value : Option String
  resolution : Option Resolution
  site : Site
deriving DecidableEq, Repr

namespace Finding

/-- Whether a finding can be fixed, once it has been triaged. -/
def confidence (f : Finding) : Option Confidence := f.resolution.map (·.confidence)

/-- Whether a finding is still there after a run. -/
def isOpen (mode : RunMode) (f : Finding) : Bool :=
  !(mode.writes && f.confidence == some .autoFixable)

/-- Path, line and column of a finding. -/
def location (f : Finding) : String :=
  f.path ++ ":" ++ toString f.lineStart ++ ":" ++ toString f.columnStart

end Finding

end DesignLint
