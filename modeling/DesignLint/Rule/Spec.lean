import DesignLint.Rule.Category

/-!
# Rules as they are configured

A `RuleSpec` is a rule as a configuration states it, before its pattern has been compiled and its
fix has been checked against the pattern.
-/

namespace DesignLint

/-- What a rule looks for. -/
inductive PatternSpec
  /-- Elements with a tag name. -/
  | tag (name : String)
  /-- Values of style properties and of utility classes, optionally those that match a regular
  expression. -/
  | declaration (properties classes : List String) (value : Option String)
  /-- Matches of a regular expression. -/
  | regex (source : String)
deriving DecidableEq, Repr

/-- Derives an attribute value from class names: it applies when every name of `every` and none of
`none` is present. -/
structure VariantMapping where
  every : List String
  none : List String
  value : String
deriving DecidableEq, Repr

/-- How the findings of a rule are fixed. -/
inductive AutofixSpec
  | none
  /-- Replaces a tag name, or values by tokens. -/
  | substitution (component : Option String) (replacements : List (String × String))
  /-- Replaces a tag name and turns class names into the attribute `target`; an element without
  class names gets the value `fallback`. -/
  | remap (component target : String) (fallback : Option String) (mappings : List VariantMapping)
deriving DecidableEq, Repr

/-- A piece of code before and after a fix. -/
structure Sample where
  before : String
  after : String
deriving DecidableEq, Repr

/-- A rule as it is configured. -/
structure RuleSpec where
  id : String
  category : Category
  severity : Severity
  pattern : PatternSpec
  autofix : AutofixSpec
  message : Option String
  remediation : Option String
  sample : Option Sample
deriving DecidableEq, Repr

end DesignLint
