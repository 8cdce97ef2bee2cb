import DesignLint.Report.Summary
import Std.Data.TreeMap

/-!
# Reports in Markdown

`Report.markdown` writes totals, buckets, fixes by category, findings for a person by category,
severity and rule, the files that were left out, and the verdict of the gate.  What a rule says
about its findings is written once, above them.
-/

namespace DesignLint

/-- What a mode is called in a report. -/
def RunMode.title : RunMode → String
  | .scan => "scan"
  | .dryRun => "fix (dry run)"
  | .fix => "fix"

/-- The table of totals. -/
def Report.totalsTable (r : Report) : String :=
  let rows : List (String × String) :=
    [("Mode", r.mode.title), ("Files scanned", toString r.filesScanned),
      ("Files modified", toString r.filesModified), ("Total matches", toString r.total),
      (r.mode.fixHeading, toString r.autoFixed), ("Manual review", toString r.manualReview),
      ("Fix failures", toString r.fixFailed), ("Open violations", toString r.openCount),
      ("Compliance score", percent r.score)]
  "| Metric | Value |\n|---|---|\n" ++
    String.join (rows.map fun row => "| " ++ row.1 ++ " | " ++ row.2 ++ " |\n")

/-- The table of buckets. -/
def Report.breakdownTable (r : Report) : String :=
  if r.breakdown.isEmpty then ""
  else
    "\n## Breakdown\n\n| Category | Severity | Confidence | Count |\n|---|---|---|---|\n" ++
      String.join (r.breakdown.map fun b =>
        "| " ++ b.category.name ++ " | " ++ b.severity.name ++ " | " ++ b.confidence.name ++
          " | " ++ toString b.count ++ " |\n")

/-- Puts a member behind those with its key. -/
def addByKey {α κ : Type} {order : κ → κ → Ordering} (key : α → κ)
    (groups : Std.TreeMap κ (List α) order) (x : α) : Std.TreeMap κ (List α) order :=
  groups.alter (key x) fun group => some (group.getD [] ++ [x])

/-- The groups of a list by a key, in the order of the keys. -/
def groupBy {α κ : Type} (order : κ → κ → Ordering) (key : α → κ) (xs : List α) :
    List (κ × List α) :=
  (xs.foldl (addByKey key) (∅ : Std.TreeMap κ (List α) order)).toList

/-- The order of categories. -/
def categoryOrder : Category → Category → Ordering := compareOn Category.rank

/-- What a finding stands under within its category. -/
def Finding.heading (f : Finding) : Severity × String := (f.severity, f.rule)

/-- The order of headings within a category: by severity and rule. -/
def headingOrder : Severity × String → Severity × String → Ordering :=
  compareLex (compareOn (·.1.rank)) (compareOn (·.2))

/-- The findings of each category that has any, in the order of categories. -/
def byCategory : List Finding → List (Category × List Finding) :=
  groupBy categoryOrder Finding.category

/-- The findings of each severity and rule that has any, ordered by severity and then by rule. -/
def byRule : List Finding → List ((Severity × String) × List Finding) :=
  groupBy headingOrder Finding.heading

/-- A fix as a list item. -/
def Finding.fixItem (f : Finding) : String :=
  "- \x60" ++ f.location ++ "\x60 **" ++ f.rule ++ "**: \x60" ++ f.fixText ++ "\x60\n"

/-- A text with backticks turned into apostrophes. -/
def withoutBackticks (s : String) : String :=
  String.ofList (s.toList.map fun c => if c == '\x60' then '\'' else c)

/-- A finding for a person as a list item. -/
def Finding.manualItem (f : Finding) : String :=
  "- \x60" ++ f.location ++ "\x60: " ++ f.rationale ++ "\n  \x60" ++ withoutBackticks f.snippet ++
    "\x60\n"

/-- The language that a file is shown in. -/
def fenceLanguage (path : String) : String :=
  let extension := (path.toList.splitOn '.').getLastD []
  if stylesheetExtensions.contains (String.ofList extension) then "css" else "tsx"

/-- A piece of code between fences. -/
def fenced (language code : String) : String :=
  "\x60\x60\x60" ++ language ++ "\n" ++ String.ofList (Text.trimEnd code.toList) ++
    "\n\x60\x60\x60\n\n"

/-- What a rule says about its findings, code being shown in a language. -/
def Rule.advice (r : Rule) (language : String) : String :=
  (r.message.map (· ++ "\n\n")).getD "" ++
    (r.remediation.map fun t => "**How to fix:** " ++ t ++ "\n\n").getD "" ++
    (r.sample.map fun s =>
      "Before:\n\n" ++ fenced language s.before ++ "After:\n\n" ++ fenced language s.after).getD ""

/-- The findings of one severity and rule. -/
def ruleSection (g : Registry) (key : Severity × String) (fs : List Finding) : String :=
  let language := (fs.head?.map fun f => fenceLanguage f.path).getD "tsx"
  "\n#### " ++ key.2 ++ " (" ++ key.1.name ++ ", " ++ toString fs.length ++ ")\n\n" ++
    ((g.rule? key.2).map (·.advice language)).getD "" ++ String.join (fs.map Finding.manualItem)

/-- The fixes of one category. -/
def fixSection (c : Category) (fs : List Finding) : String :=
  "\n### " ++ c.title ++ "\n\n" ++ String.join (fs.map Finding.fixItem)

/-- The findings for a person of one category. -/
def manualSection (g : Registry) (c : Category) (fs : List Finding) : String :=
  "\n### " ++ c.title ++ "\n" ++
    String.join ((byRule fs).map fun group => ruleSection g group.1 group.2)

/-- What stands in a section without findings. -/
def noneIfEmpty {α : Type} (xs : List α) : String := if xs.isEmpty then "\nNone.\n" else ""

/-- The fixes of a report. -/
def Report.fixSections (r : Report) : String :=
  let groups := byCategory (r.withConfidence .autoFixable)
  "\n## " ++ r.mode.fixHeading ++ " (" ++ toString r.autoFixed ++ ")\n" ++ noneIfEmpty groups ++
    String.join (groups.map fun group => fixSection group.1 group.2)

/-- The findings of a report that are for a person. -/
def Report.manualSections (r : Report) (g : Registry) : String :=
  let groups := byCategory (r.withConfidence .manualReview)
  "\n## Manual Review Needed (" ++ toString r.manualReview ++ ")\n" ++ noneIfEmpty groups ++
    String.join (groups.map fun group => manualSection g group.1 group.2)

/-- The files that were left out. -/
def Report.skippedSection (r : Report) : String :=
  if r.skipped.isEmpty then ""
  else
    "\n## Skipped Files\n\n" ++
      String.join (r.skipped.map fun s =>
        "- \x60" ++ s.path ++ "\x60: " ++ s.reason.message ++ "\n")

/-- A violated threshold with its places. -/
def Violation.item (v : Violation) : String :=
  "- " ++ v.reason ++ "\n" ++ String.join (v.locations.map fun l => "  - \x60" ++ l ++ "\x60\n")

/-- The verdict of the gate. -/
def gateSection (vs : List Violation) : String :=
  "\n## Compliance Gate\n\n" ++
    if vs.isEmpty then "**PASSED**\n" else "**FAILED**\n\n" ++ String.join (vs.map Violation.item)

/-- A report in Markdown. -/
def Report.markdown (r : Report) (vs : List Violation) (g : Registry) : String :=
  "# Design System Compliance Report\n\n" ++ r.totalsTable ++ r.breakdownTable ++ r.fixSections ++
    r.manualSections g ++ r.skippedSection ++ gateSection vs

end DesignLint
