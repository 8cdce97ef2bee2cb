import DesignLint.Markup.Enclosure

/-!
# Bodies of template literals

`templateBodies` lists the bodies of the outermost template literals of a script, outside comments
and quoted strings.
-/

namespace DesignLint.Style

/-- The points between the quotes of a template literal. -/
structure TemplateBody where
  start : Cursor
  body : Text

/-- What stands at a point outside comments, strings and template literals: the body of a template
literal if one starts there, and the point after it. -/
def templateStep (o : Nat) (c : Char) (cs : Text) : Option TemplateBody × Cursor :=
  let next : Cursor := ⟨o + c.utf8Size, cs⟩
  if c == Markup.backtick then
    match Markup.templateEnd next with
    | some stop => (some ⟨next, next.rest.takeBytes (stop.offset - 1 - next.offset)⟩, stop)
    | none => (none, next)
  else if c == '/' && cs.head? == some '/' then (none, Markup.lineEnd next)
  else if c == '/' && cs.head? == some '*' then
    (none, (Markup.blockEnd (next.skip 1)).getD ⟨o, []⟩)
  else if c == '"' || c == '\'' then
    (none, (Markup.closeQuote c next.offset cs).getD next)
  else (none, next)

/-- The bodies of template literals from a point on.  `fuel` bounds the number of steps. -/
def templatesFrom : (fuel : Nat) → Cursor → List TemplateBody
  | 0, _ => []
  | _ + 1, ⟨_, []⟩ => []
  | fuel + 1, ⟨o, c :: cs⟩ =>
    let (body, next) := templateStep o c cs
    body.toList ++ templatesFrom fuel next

/-- The bodies of the template literals of a script. -/
def templateBodies (cs : Text) : List TemplateBody := templatesFrom cs.length (.start cs)

end DesignLint.Style
