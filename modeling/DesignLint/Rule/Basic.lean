import DesignLint.Regex
import DesignLint.Rule.Spec
import DesignLint.Value

/-!
# Rules

A `Rule` is a rule that is ready for use: its regular expressions are compiled, its property names
are in lower case, and its replacements are listed under the normal form of the values they
replace.
-/

namespace DesignLint

/-- Watches style properties and utility classes. -/
structure DeclarationPattern where
  /-- Property names in lower case. -/
  properties : List String
  /-- What utility classes start with. -/
  classes : List String
  /-- What a value has to match, if anything. -/
  filter : Option Regex

namespace DeclarationPattern

/-- Whether a property is watched. -/
def watches (p : DeclarationPattern) (property : Text) : Bool :=
  p.properties.contains (String.ofList property)

/-- Whether a value, or one of the string literals in it, passes the filter. -/
def accepts (p : DeclarationPattern) (value : Text) : Bool :=
  match p.filter with
  | none => true
  | some r => r.isMatch value.trim || (Value.stringLiterals value).any r.isMatch

end DeclarationPattern

/-- What a rule looks for. -/
inductive Pattern
  | tag (name : String)
  | declaration (p : DeclarationPattern)
  | regex (r : Regex)

/-- The pattern in a listing of rules. -/
def Pattern.summary : Pattern → String
  | .tag name => "<" ++ name ++ ">"
  | .declaration p =>
    if p.properties.isEmpty then "tailwind classes" else ", ".intercalate p.properties
  | .regex r => "/" ++ r.source ++ "/"

/-- How the findings of a rule are fixed. -/
inductive Autofix
  | none
  /-- Replaces the name of an element. -/
  | rename (component : String)
  /-- Replaces values by tokens; each value is listed once, in its normal form. -/
  | substitute (tokens : List (Text × String))
  /-- Replaces the name of an element and turns its class names into an attribute. -/
  | remap (component target : String) (fallback : Option String) (mappings : List VariantMapping)
deriving DecidableEq

namespace Autofix

/-- How a configuration names the strategy. -/
def strategy : Autofix → String
  | .none => "none"
  | .rename _ => "direct-substitution"
  | .substitute _ => "direct-substitution"
  | .remap .. => "attribute-remap"

end Autofix

/-- A rule that is ready for use. -/
structure Rule where
  id : String
  category : Category
  severity : Severity
  pattern : Pattern
  autofix : Autofix
  message : Option String
  remediation : Option String
  sample : Option Sample

end DesignLint
