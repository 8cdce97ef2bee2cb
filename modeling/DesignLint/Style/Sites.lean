import DesignLint.Rule.Basic
import DesignLint.Source
import DesignLint.Style.Declaration
import DesignLint.Style.Inline
import DesignLint.Style.Template
import DesignLint.Style.UtilityClass

/-!
# All style values of a file

`DeclarationPattern.sites` lists the values in a file that a pattern watches, ordered by their
spans: declarations of a style sheet, or those in the template literals of a script together with
the entries of its style objects, and the values of utility classes in both.  `Regex.sites` lists
the matches of a regular expression.
-/

namespace DesignLint

namespace Style

/-- The declared values of a style sheet. -/
def sheetSites (properties : List Text) (cs : Text) : List ValueSite :=
  declarationSites properties (maskComments (.code true) cs) cs 0

/-- The declared values in the body of a template literal. -/
def templateSites (properties : List Text) (t : TemplateBody) : List ValueSite :=
  declarationSites properties (maskInterpolations t.body.length (.start t.body)) t.body
    t.start.offset

/-- The values that a pattern watches, in the order of the places they are looked for in. -/
def unsortedSites (p : DeclarationPattern) (file : Source) : List ValueSite :=
  let properties := p.properties.map String.toList
  let declared :=
    if properties.isEmpty then []
    else
      match file.kind with
      | .stylesheet => sheetSites properties file.text
      | .script =>
        (templateBodies file.text).flatMap (templateSites properties) ++
          inlineSites p.watches file.text
  let ofClasses :=
    if p.classes.isEmpty then [] else classSites (p.classes.map String.toList) file.text
  declared ++ ofClasses

end Style

/-- The values in a file that a pattern watches, ordered by their spans. -/
def DeclarationPattern.sites (p : DeclarationPattern) (file : Source) : List ValueSite :=
  (Style.unsortedSites p file).mergeSort fun a b => a.span.le b.span

/-- The matches of a regular expression in a text: of each the group `value` if it took part, or
else the whole, unless it is empty. -/
def Regex.sites (r : Regex) (cs : Text) : List ValueSite :=
  (r.findAll cs).filterMap fun m =>
    let span := (r.named? "value" m).getD m.span
    if span.start == span.stop then none
    else some ⟨span, cs.slice span, [], .raw⟩

end DesignLint
