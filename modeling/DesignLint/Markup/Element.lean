import DesignLint.Text.Basic

/-!
# Elements of markup

What is known of an element found in a script: where its opening tag, its name, its attributes and
its closing tag are, and whether its children can be followed.  Attribute values keep the source
text of expressions; nothing is evaluated.
-/

namespace DesignLint

/-- The value of an attribute. -/
inductive AttributeValue
  /-- A quoted constant, without its quotes. -/
  | literal (source : String)
  /-- A template literal with interpolations, with its quotes. -/
  | template (source : String)
  /-- Any other expression in braces. -/
  | expression (source : String)
  /-- The operand of a spread. -/
  | spread (source : String)
  /-- No value at all. -/
  | flag
deriving DecidableEq, Repr

/-- An attribute with the span of its whole text; a spread is named `...`. -/
structure Attribute where
  name : String
  value : AttributeValue
  span : Span
deriving DecidableEq, Repr

/-- What is known of the children of an element. -/
inductive Children
  /-- The element closes itself. -/
  | selfClosing
  /-- No closing tag was found. -/
  | unclosed
  /-- The children cannot be followed, and why. -/
  | malformed (why : String)
  | wellFormed
deriving DecidableEq, Repr

/-- An element of markup. -/
structure Element where
  /-- From `<` to the end of the opening tag, or to where the reader gave up. -/
  tag : Span
  name : Span
  attributes : List Attribute
  selfClosing : Bool
  /-- Whether the end of the opening tag was found. -/
  terminated : Bool
  /-- The name in the closing tag. -/
  closing : Option Span
  children : Children
deriving DecidableEq, Repr

/-- The first attribute with a name. -/
def Element.attribute? (e : Element) (name : String) : Option Attribute :=
  e.attributes.find? (·.name == name)

/-- The value of the first attribute with a name. -/
def Element.valueOf? (e : Element) (name : String) : Option AttributeValue :=
  (e.attribute? name).map Attribute.value

/-- Whether some attribute is a spread. -/
def Element.spreads (e : Element) : Bool :=
  e.attributes.any fun a => match a.value with | .spread _ => true | _ => false

end DesignLint
