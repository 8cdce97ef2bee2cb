import DesignLint.Config.Basic
import DesignLint.Rule.Approval
import DesignLint.Rule.Basic

/-!
# Registries

A `Registry` holds the rules of a configuration in their order, and the approved values.
`Registry.ofConfig` makes one, or reports the first rule that is not admissible; of one rule it
checks first the id, then whether the id is new, then the pattern, then the fix.  The tokens that a
rule puts in place of values are approved in the category of the rule.
-/

namespace DesignLint

/-- Rules and approved values. -/
structure Registry where
  rules : List Rule
  approvals : Approvals

namespace Registry

/-- The rule with an id. -/
def rule? (g : Registry) (id : String) : Option Rule := g.rules.find? (·.id == id)

end Registry

/-- Whether a text can be the name of a tag. -/
def isTagName (name : String) : Bool :=
  !name.isEmpty && name.toList.all fun c => c.isAlphanum || c == '-' || c == '.'

/-- Whether a text holds nothing but blanks. -/
def isBlankText (s : String) : Bool := Text.blank s.toList

/-- Compiles a regular expression of a pattern. -/
def compileRegex (source : String) : Except PatternFlaw Regex :=
  (Regex.ofText source).mapError (PatternFlaw.regex source)

/-- Compiles a pattern of a rule in a category. -/
def PatternSpec.compile (c : Category) : PatternSpec → Except PatternFlaw Pattern
  | .tag name =>
    if c != .componentUsage then .error (.tagCategory c)
    else if isTagName name then .ok (.tag name)
    else .error (.tagName name)
  | .declaration properties classes value =>
    if !c.isToken then .error .declarationCategory
    else if properties.isEmpty && classes.isEmpty then .error .declarationEmpty
    else do
      let filter ← value.mapM compileRegex
      let properties := properties.map fun p => String.ofList (Text.lower (Text.trim p.toList))
      let classes := classes.map fun p => String.ofList (Text.trim p.toList)
      return .declaration ⟨properties, classes, filter⟩
  | .regex source =>
    if !c.isToken then .error .regexCategory else .regex <$> compileRegex source

/-- Adds an entry to a table in place of one with the same key. -/
def putToken (tokens : List (Text × String)) (key : Text) (token : String) : List (Text × String) :=
  tokens.filter (·.1 != key) ++ [(key, token)]

/-- The tokens of a table of replacements.  Of two values with one normal form, the one that is
written with the greater text counts. -/
def tokenTable (replacements : List (String × String)) : List (Text × String) :=
  let sorted := replacements.mergeSort fun a b => a.1 ≤ b.1
  sorted.foldl (fun ts r => putToken ts (Value.normalize r.1.toList) r.2) []

/-- Compiles the fix of a rule with a pattern. -/
def AutofixSpec.compile (p : Pattern) : AutofixSpec → Except StrategyFlaw Autofix
  | .none => .ok .none
  | .substitution component replacements =>
    match p with
    | .tag _ =>
      match component with
      | some c => if isBlankText c then .error .noComponent else .ok (.rename c)
      | .none => .error .noComponent
    | _ =>
      if replacements.isEmpty then .error .noReplacements
      else .ok (.substitute (tokenTable replacements))
  | .remap component target fallback mappings =>
    match p with
    | .tag _ =>
      if isBlankText component || isBlankText target then .error .noTarget
      else if mappings.any (·.every.isEmpty) then .error .emptyMapping
      else .ok (.remap component target fallback mappings)
    | _ => .error .remapOfValue

/-- Compiles a rule. -/
def RuleSpec.compile (r : RuleSpec) : Except ConfigError Rule := do
  let pattern ← (r.pattern.compile r.category).mapError (ConfigError.invalidPattern r.id)
  let autofix ← (r.autofix.compile pattern).mapError (ConfigError.invalidStrategy r.id)
  return ⟨r.id, r.category, r.severity, pattern, autofix, r.message, r.remediation, r.sample⟩

/-- Compiles rules one after the other; `seen` holds the ids of those before them. -/
def compileRules (seen : List String) : List RuleSpec → Except ConfigError (List Rule)
  | [] => .ok []
  | r :: rs =>
    if isBlankText r.id then .error (.invalidPattern "" .emptyId)
    else if seen.contains r.id then .error (.duplicateRule r.id)
    else do
      let rule ← r.compile
      let rules ← compileRules (r.id :: seen) rs
      return rule :: rules

/-- The tokens that a rule puts in place of values. -/
def Rule.tokens (r : Rule) : List String :=
  match r.autofix with
  | .substitute tokens => tokens.map (·.2)
  | _ => []

/-- The approved values of a configuration with some rules. -/
def approvalsOf (c : Config) (rules : List Rule) : Approvals :=
  let approve (category : Category) (v : String) := (category, Approval.ofText v.toList)
  c.approved.flatMap (fun a => a.2.map (approve a.1)) ++
    rules.flatMap fun r => r.tokens.map (approve r.category)

/-- The registry of a configuration. -/
def Registry.ofConfig (c : Config) : Except ConfigError Registry :=
  if c.rules.isEmpty then .error .noRules
  else do
    let rules ← compileRules [] c.rules
    return ⟨rules, approvalsOf c rules⟩

/-- Checks that a least score can be reached and missed. -/
def Thresholds.check (t : Thresholds) : Except ConfigError Unit :=
  match t.minScore with
  | some x => if 0 ≤ x && x ≤ 1 then .ok () else .error (.invalidScore x)
  | none => .ok ()

end DesignLint
