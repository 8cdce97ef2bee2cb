import DesignLint.Gate.Threshold
import DesignLint.Glob
import DesignLint.Regex
import DesignLint.Rule.Spec
import DesignLint.Decimal.Layout

/-!
# Configurations

A `Config` is a configuration file read into the types of the library; what it leaves out is
absent.  `ConfigError` lists everything that can be wrong with one, and `ConfigError.message` says
it.
-/

namespace DesignLint

/-- A configuration. -/
structure Config where
  paths : Option (List String)
  included : Option (List String)
  excluded : Option (List String)
  extensions : Option (List String)
  maxFileSize : Option Nat
  jobs : Option Nat
  reportFormat : Option String
  rules : List RuleSpec
  approved : List (Category × List String)
  thresholds : Thresholds

/-- A configuration that says nothing. -/
def Config.empty : Config :=
  ⟨none, none, none, none, none, none, none, [], [], .lenient⟩

/-- What can be wrong with the pattern of a rule. -/
inductive PatternFlaw
  | emptyId
  | tagCategory (c : Category)
  | tagName (name : String)
  | declarationCategory
  | declarationEmpty
  | regexCategory
  | regex (source : String) (cause : Regex.ParseError)
deriving DecidableEq, Repr

/-- How a flaw of a pattern is reported. -/
def PatternFlaw.message : PatternFlaw → String
  | .emptyId => "rule id must not be empty"
  | .tagCategory c => "tag patterns need category component-usage, got " ++ c.name
  | .tagName name => "invalid tag name '" ++ name ++ "'"
  | .declarationCategory => "declaration patterns need a token category"
  | .declarationEmpty => "declaration needs at least one property or class prefix"
  | .regexCategory => "regex patterns are only supported for token categories"
  | .regex source cause =>
    "regex parse error:\n    " ++ source ++ "\nerror: " ++ cause.describe

/-- What can be wrong with the fix of a rule. -/
inductive StrategyFlaw
  | noComponent
  | noReplacements
  | noTarget
  | emptyMapping
  | remapOfValue
deriving DecidableEq, Repr

/-- How a flaw of a fix is reported. -/
def StrategyFlaw.message : StrategyFlaw → String
  | .noComponent => "tag substitution needs a component"
  | .noReplacements => "token substitution needs replacements"
  | .noTarget => "attribute-remap needs component and attribute"
  | .emptyMapping => "every mapping needs at least one class in 'all'"
  | .remapOfValue => "attribute-remap only applies to tag patterns"

/-- What can be wrong with an option. -/
inductive OptionFlaw
  | reportFormat (given : String)
  | glob (option source : String) (cause : GlobError)
deriving DecidableEq, Repr

/-- The name of the option. -/
def OptionFlaw.option : OptionFlaw → String
  | .reportFormat _ => "report-format"
  | .glob option _ _ => option

/-- How a flaw of an option is reported. -/
def OptionFlaw.message : OptionFlaw → String
  | .reportFormat given => "expected human|json|markdown, got '" ++ given ++ "'"
  | .glob _ source cause => "bad glob '" ++ source ++ "': " ++ cause.message

/-- What can be wrong with a configuration. -/
inductive ConfigError
  | unreadable (path why : String)
  | unparsable (path why : String)
  | notFound
  | noRules
  | duplicateRule (id : String)
  | invalidPattern (rule : String) (flaw : PatternFlaw)
  | invalidStrategy (rule : String) (flaw : StrategyFlaw)
  | invalidScore (score : Float)
  | invalidOption (flaw : OptionFlaw)

/-- How an error is reported. -/
def ConfigError.message : ConfigError → String
  | .unreadable path why => "cannot read config " ++ path ++ ": " ++ why
  | .unparsable path why => "cannot parse config " ++ path ++ ": " ++ why
  | .notFound => "no dslint config found (pass --config or add dslint.toml)"
  | .noRules => "config declares no rules"
  | .duplicateRule id => "duplicate rule id '" ++ id ++ "'"
  | .invalidPattern rule flaw => "rule '" ++ rule ++ "': invalid pattern: " ++ flaw.message
  | .invalidStrategy rule flaw =>
    "rule '" ++ rule ++ "': invalid autofix strategy: " ++ flaw.message
  | .invalidScore score =>
    "invalid threshold: min_compliance_score must be within [0, 1], got " ++
      Decimal.Layout.plain.write score
  | .invalidOption flaw => "invalid option " ++ flaw.option ++ ": " ++ flaw.message

end DesignLint
