/-!
# Categories and severities

The closed sets that rules and findings are sorted by.  Both are ordered by their rank, which is the
order of their constructors.
-/

namespace DesignLint

/-- What a rule is about. -/
inductive Category
  | componentUsage
  | fontToken
  | typographyToken
  | colorToken
deriving DecidableEq, Repr

namespace Category

/-- All categories by rank. -/
def all : List Category := [.componentUsage, .fontToken, .typographyToken, .colorToken]

/-- The place of a category in the order of reports. -/
def rank : Category → Nat
  | .componentUsage => 0
  | .fontToken => 1
  | .typographyToken => 2
  | .colorToken => 3

/-- How a category is written. -/
def name : Category → String
  | .componentUsage => "component-usage"
  | .fontToken => "font-token"
  | .typographyToken => "typography-token"
  | .colorToken => "color-token"

/-- The heading of a category. -/
def title : Category → String
  | .componentUsage => "Component usage"
  | .fontToken => "Font tokens"
  | .typographyToken => "Typography tokens"
  | .colorToken => "Color tokens"

/-- The category that is written in a given way. -/
def ofName? (s : String) : Option Category := all.find? (·.name == s)

/-- Whether a category is about values of style properties. -/
def isToken (c : Category) : Bool := c != .componentUsage

end Category

/-- How much a finding matters. -/
inductive Severity
  | critical
  | high
  | medium
deriving DecidableEq, Repr

namespace Severity

/-- All severities by rank. -/
def all : List Severity := [.critical, .high, .medium]

/-- The place of a severity in the order of reports. -/
def rank : Severity → Nat
  | .critical => 0
  | .high => 1
  | .medium => 2

/-- How a severity is written. -/
def name : Severity → String
  | .critical => "critical"
  | .high => "high"
  | .medium => "medium"

/-- The severity that is written in a given way. -/
def ofName? (s : String) : Option Severity := all.find? (·.name == s)

end Severity

end DesignLint
