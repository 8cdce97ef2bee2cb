/-!
# Data documents

A `Document` is a tree of plain data: what configuration files hold and what reports are written
as.  Objects keep their fields in the order of the text, and a repeated key is kept, so that the
reader of a document decides what a repetition means.
-/

namespace DesignLint

/-- A tree of plain data. -/
inductive Document
  | null
  | bool (b : Bool)
  | int (n : Int)
  | float (x : Float)
  | string (s : String)
  /-- A scalar without quotes, whose type is settled when it is read. -/
  | plain (s : String)
  | array (items : List Document)
  | object (fields : List (String × Document))
  /-- An object whose keys are documents, as some formats allow. -/
  | mapping (entries : List (Document × Document))
deriving Inhabited

namespace Document

/-- The text of a scalar that is written as text. -/
def text? : Document → Option String
  | .string s => some s
  | .plain s => some s
  | _ => none

/-- The value of the last field with a key. -/
def field? (d : Document) (key : String) : Option Document :=
  match d with
  | .object fields => (fields.reverse.find? (·.1 == key)).map (·.2)
  | _ => none

end Document

end DesignLint
