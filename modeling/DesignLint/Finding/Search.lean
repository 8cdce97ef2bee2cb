import DesignLint.Finding.Basic
import DesignLint.Markup.Search
import DesignLint.Rule.Registry
import DesignLint.Style.Sites
import DesignLint.Text.Position

/-!
# Looking for findings

`Rule.sites` lists the places in a file at which a rule applies: values that are approved or that
the rule does not accept are none.  `Registry.findings` lists the findings of all rules.  Of two
overlapping places of one kind only the one of the earlier rule is kept (`keepUnclaimed`), and the
result is ordered by position (`Finding.order`).
-/

namespace DesignLint

/-- The greatest number of characters of a snippet. -/
def snippetLength : Nat := 120

/-- A text on one line and cut to the length of a snippet. -/
def snippet (cs : Text) : Text := Text.truncate snippetLength (Text.collapse cs)

/-- Attributes by name; of attributes with one name the last one counts. -/
def captured (as : List Attribute) : List (String × AttributeValue) :=
  let latest := as.foldl (fun done a => done.filter (·.1 != a.name) ++ [(a.name, a.value)]) []
  latest.mergeSort fun a b => a.1 ≤ b.1

/-- The finding of a rule at a place. -/
def Rule.finding (r : Rule) (file : Source) (site : Site) : Finding :=
  let stop :=
    match site with
    | .element e => (e.closing.getD e.tag).stop
    | .value v => v.span.stop
  let index := LineIndex.ofText file.text
  let shown :=
    match site with
    | .element e => file.text.slice e.tag
    | .value v => index.lineText file.text (index.line v.span.start)
  { path := file.path
    rule := r.id
    category := r.category
    severity := r.severity
    lineStart := index.line site.span.start
    lineEnd := index.line (max (stop - 1) site.span.start)
    columnStart := index.column file.text site.span.start
    snippet := String.ofList (snippet shown)
    attributes := match site with
      | .element e => captured e.attributes
      | .value _ => []
    value := match site with
      | .element _ => none
      | .value v => some (String.ofList v.value)
    resolution := none
    site := site }

/-- The text by which a value is approved: of an expression its first string literal. -/
def ValueSite.approvalText (v : ValueSite) : Text :=
  match v.context with
  | .inlineExpression => (Value.stringLiterals v.value).head?.getD v.value
  | _ => v.value

/-- The places in a file at which a rule applies. -/
def Rule.sites (r : Rule) (approvals : Approvals) (file : Source) : List Site :=
  match r.pattern with
  | .tag name =>
    match file.kind with
    | .script => (Markup.findElements file.text name.toList).map .element
    | .stylesheet => []
  | .declaration p =>
    let vs := (p.sites file).filter fun v =>
      !approvals.approves r.category v.approvalText && p.accepts v.value
    vs.map .value
  | .regex re =>
    let vs := (re.sites file.text).filter fun v => !approvals.approves r.category v.value
    vs.map .value

/-- The findings of one rule in a file. -/
def Rule.findings (r : Rule) (approvals : Approvals) (file : Source) : List Finding :=
  (r.sites approvals file).map (r.finding file)

/-- Whether two places are of one kind and overlap. -/
def Site.clashes (s t : Site) : Bool := s.isElement == t.isElement && s.span.overlaps t.span

/-- Adds a finding unless it clashes with an earlier one. -/
def keepUnclaimed (kept : List Finding) (f : Finding) : List Finding :=
  if kept.any (·.site.clashes f.site) then kept else kept ++ [f]

/-- The order of findings: by where their places start, then by line and column. -/
def Finding.order : Finding → Finding → Ordering :=
  compareLex (compareOn (·.site.span.start))
    (compareLex (compareOn (·.lineStart)) (compareOn (·.columnStart)))

/-- The findings of all rules in a file, ordered by position; at one position by rule. -/
def Registry.findings (g : Registry) (file : Source) : List Finding :=
  let found := g.rules.flatMap (·.findings g.approvals file)
  (found.foldl keepUnclaimed []).mergeSort fun a b => (a.order b).isLE

end DesignLint
