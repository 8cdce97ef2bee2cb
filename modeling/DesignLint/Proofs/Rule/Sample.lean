import DesignLint.Rule.Registry

/-!
# Sample rules

Rules from which sample registries are put together: a tag with a fix, and values of one property
and of one utility class with their tokens.
-/

namespace DesignLint

/-- A configuration that consists of rules. -/
def Config.ofRules (rules : List RuleSpec) : Config := { Config.empty with rules := rules }

/-- The registry of some rules; it is empty if one of them is not admissible. -/
def Registry.ofRules (rules : List RuleSpec) : Registry :=
  match Registry.ofConfig (.ofRules rules) with
  | .ok g => g
  | .error _ => ⟨[], []⟩

/-- A rule about a tag, with the name of the tag as its id. -/
def RuleSpec.ofTag (name : String) (fix : AutofixSpec) : RuleSpec :=
  ⟨name, .componentUsage, .high, .tag name, fix, none, none, none⟩

/-- A rule about colours that replaces values by tokens. -/
def RuleSpec.ofColor (replacements : List (String × String)) : RuleSpec :=
  ⟨"color", .colorToken, .high, .declaration ["color"] ["bg"] none,
    .substitution none replacements, none, none, none⟩

/-- A rule about colours of properties that fixes nothing. -/
def RuleSpec.ofColorProperty (id : String) : RuleSpec :=
  ⟨id, .colorToken, .high, .declaration ["color"] [] none, .none, none, none, none⟩

end DesignLint
