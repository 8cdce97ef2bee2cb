import DesignLint.Path
import DesignLint.Text.Blank

/-!
# Source files

A `Source` is a file that has been read: the path it is reported under, its text, and whether it is
a script or a style sheet, which its extension settles.
-/

namespace DesignLint

/-- What is looked for in a file depends on its kind. -/
inductive SourceKind
  | script
  | stylesheet
deriving DecidableEq, Repr

/-- Extensions of style sheets. -/
def stylesheetExtensions : List String := ["css", "scss", "sass", "less", "pcss"]

/-- ASCII letters of a string in lower case. -/
def lowerString (s : String) : String := String.ofList (Text.lower s.toList)

/-- The kind of the file at a path. -/
def SourceKind.ofPath (path : String) : SourceKind :=
  match Path.extension? path with
  | some e => if stylesheetExtensions.contains (lowerString e) then .stylesheet else .script
  | none => .script

/-- A file that has been read. -/
structure Source where
  path : String
  text : Text
  kind : SourceKind
deriving DecidableEq, Repr

/-- A file at a path. -/
def Source.ofText (path : String) (text : Text) : Source := ⟨path, text, .ofPath path⟩

end DesignLint
