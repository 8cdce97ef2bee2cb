import DesignLint.Finding.Basic
import DesignLint.Rule.Basic

/-!
# Triage

`obstacle?` is the first reason, in a fixed order, why a finding cannot be fixed without a person
looking; `triage` makes a resolution of it.
-/

namespace DesignLint

/-- Why a person has to look at a finding. -/
inductive Obstacle
  | unterminatedTag
  | spreadProps
  | templateClassName
  | computedClassName (kind : Value.ExpressionKind)
  | imperativeRef
  | unclosedElement
  | malformedChildren (why : String)
  | noStrategy
  | interpolation
  | computedValue (kind : Value.ExpressionKind)
  | functionCall
  | notLiteral
deriving DecidableEq, Repr

/-- How an obstacle is reported. -/
def Obstacle.message : Obstacle → String
  | .unterminatedTag => "opening tag is not terminated"
  | .spreadProps => "element spreads props"
  | .templateClassName => "className uses template literal interpolation"
  | .computedClassName kind => "className uses a " ++ kind.describe
  | .imperativeRef => "ref callback contains custom imperative logic"
  | .unclosedElement => "element has no matching closing tag"
  | .malformedChildren why => "children are malformed: " ++ why
  | .noStrategy => "rule has no autofix strategy"
  | .interpolation => "value interpolates a template expression"
  | .computedValue kind => "value uses a " ++ kind.describe
  | .functionCall => "value is computed by a function call"
  | .notLiteral => "value is not a literal constant"

/-- The attribute that holds class names. -/
def classAttribute : String := "className"

/-- The obstacle in the class names of an element. -/
def classObstacle? (e : Element) : Option Obstacle :=
  match e.valueOf? classAttribute with
  | some (.template _) => some .templateClassName
  | some (.expression source) => some (.computedClassName (Value.expressionKind source.toList))
  | _ => none

/-- The obstacle in the `ref` of an element, which may only hand on a reference. -/
def refObstacle? (e : Element) : Option Obstacle :=
  match e.valueOf? "ref" with
  | none => none
  | some (.expression source) =>
    if Value.isReference source.toList then none else some .imperativeRef
  | some _ => some .imperativeRef

/-- The obstacle in the children of an element. -/
def childrenObstacle? (e : Element) : Option Obstacle :=
  match e.children with
  | .unclosed => some .unclosedElement
  | .malformed why => some (.malformedChildren why)
  | _ => none

/-- The obstacle in a rule: that it says nothing about fixes. -/
def Rule.obstacle? (r : Rule) : Option Obstacle :=
  match r.autofix with
  | .none => some .noStrategy
  | _ => none

/-- The obstacle in an element. -/
def elementObstacle? (e : Element) : Option Obstacle :=
  if !e.terminated then some .unterminatedTag
  else if e.spreads then some .spreadProps
  else classObstacle? e <|> refObstacle? e <|> childrenObstacle? e

/-- The obstacle in a value. -/
def valueObstacle? (v : ValueSite) : Option Obstacle :=
  if Text.has "$\x7b".toList v.value then some .interpolation
  else if v.context == .inlineExpression then some (.computedValue (Value.expressionKind v.value))
  else if Value.isLiteral v.value then none
  else if v.value.contains '(' then some .functionCall
  else some .notLiteral

/-- The first obstacle to fixing a rule's finding at a place. -/
def obstacle? (r : Rule) : Site → Option Obstacle
  | .element e => elementObstacle? e <|> r.obstacle?
  | .value v => valueObstacle? v <|> r.obstacle?

/-- Why a finding without obstacle can be fixed. -/
def fixableBecause : Site → String
  | .element e =>
    if (e.attribute? classAttribute).isSome then
      "literal className, no spread props, well-formed children"
    else "no className, no spread props, well-formed children"
  | .value _ => "literal constant value"

/-- The resolution of a rule's finding at a place. -/
def triage (r : Rule) (site : Site) : Resolution :=
  match obstacle? r site with
  | some o => .manual o.message
  | none => .fixable (fixableBecause site)

end DesignLint
