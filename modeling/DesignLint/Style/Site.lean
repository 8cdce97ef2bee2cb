import DesignLint.Text.Basic

/-!
# Places of style values

A `ValueSite` is a value that a script or a style sheet gives to a style property: the span that a
replacement would overwrite, the value, the property, and the context, which decides how a
replacement is written.
-/

namespace DesignLint

/-- Where a value stands. -/
inductive ValueContext
  /-- After `property:` in a style sheet or a template literal. -/
  | declaration
  /-- A quoted string in a style object, without its quotes. -/
  | inlineString
  /-- A bare number in a style object. -/
  | inlineNumber
  /-- Any other expression in a style object. -/
  | inlineExpression
  /-- A template literal with interpolations in a style object, with its quotes. -/
  | inlineTemplate
  /-- Between the brackets of an arbitrary utility class. -/
  | className
  /-- A match of a regular expression. -/
  | raw
deriving DecidableEq, Repr

/-- How a context is written. -/
def ValueContext.name : ValueContext → String
  | .declaration => "declaration"
  | .inlineString => "inline-string"
  | .inlineNumber => "inline-number"
  | .inlineExpression => "inline-expression"
  | .inlineTemplate => "inline-template"
  | .className => "class-name"
  | .raw => "raw"

/-- A value given to a style property. -/
structure ValueSite where
  span : Span
  value : Text
  property : Text
  context : ValueContext
deriving DecidableEq, Repr

end DesignLint
