import DesignLint.Document.Json
import DesignLint.Gate.Evaluate

/-!
# Reports as documents

A report, with the verdict of the gate, for a program to read.  Fields come in a fixed order, and
what is absent is left out where the doc comment says so.
-/

namespace DesignLint

/-- A natural number as a document. -/
def Document.nat (n : Nat) : Document := .int n

/-- Some texts as a document. -/
def Document.strings (ss : List String) : Document := .array (ss.map .string)

/-- A field that is left out when it is absent. -/
def Document.optionalField (key : String) (s : Option String) : List (String × Document) :=
  (s.map fun s => (key, Document.string s)).toList

/-- A kind of value, with its source if it has one. -/
def AttributeValue.toDocument (v : AttributeValue) : Document :=
  let withSource (kind source : String) : Document :=
    .object [("kind", .string kind), ("source", .string source)]
  match v with
  | .literal s => withSource "literal" s
  | .template s => withSource "template" s
  | .expression s => withSource "expression" s
  | .spread s => withSource "spread" s
  | .flag => .object [("kind", .string "flag")]

/-- A resolution; fixes that do not exist are left out. -/
def Resolution.toDocument (r : Resolution) : Document :=
  .object ([("confidence", .string r.confidence.name), ("rationale", .string r.rationale)] ++
    Document.optionalField "planned_fix" r.planned ++
    Document.optionalField "applied_fix" r.applied ++ [("fix_failed", .bool r.failed)])

/-- The fields of a finding; attributes are left out if there are none, and so is a value that does
not exist. -/
def Finding.fields (f : Finding) : List (String × Document) :=
  let attributes : List (String × Document) :=
    if f.attributes.isEmpty then []
    else [("captured_attributes", .object (f.attributes.map fun a => (a.1, a.2.toDocument)))]
  [("file_path", .string f.path), ("rule_id", .string f.rule),
    ("category", .string f.category.name), ("severity", .string f.severity.name),
    ("line_start", .nat f.lineStart), ("line_end", .nat f.lineEnd),
    ("column_start", .nat f.columnStart), ("raw_snippet", .string f.snippet)] ++
  attributes ++ Document.optionalField "value" f.value ++
  [("resolution", (f.resolution.map Resolution.toDocument).getD .null)]

/-- A finding. -/
def Finding.toDocument (f : Finding) : Document := .object f.fields

/-- The result for a file. -/
def FileResult.toDocument (f : FileResult) : Document :=
  .object [("path", .string f.path), ("matches", .array (f.findings.map Finding.toDocument)),
    ("hash_before", .string f.hashBefore), ("hash_after", .string f.hashAfter),
    ("written", .bool f.written)]

/-- Why a file was left out. -/
def SkipReason.toDocument : SkipReason → Document
  | .symlinkCycle => .object [("kind", .string "symlink-cycle")]
  | .binary => .object [("kind", .string "binary")]
  | .tooLarge n => .object [("kind", .string "too-large"), ("detail", .nat n)]
  | .unreadable why => .object [("kind", .string "unreadable"), ("detail", .string why)]

/-- A file that was left out. -/
def Skipped.toDocument (s : Skipped) : Document :=
  .object [("path", .string s.path), ("reason", s.reason.toDocument)]

/-- A bucket. -/
def Bucket.toDocument (b : Bucket) : Document :=
  .object [("category", .string b.category.name), ("severity", .string b.severity.name),
    ("confidence", .string b.confidence.name), ("count", .nat b.count)]

/-- A report. -/
def Report.toDocument (r : Report) : Document :=
  .object [("mode", .string r.mode.name), ("files_scanned", .nat r.filesScanned),
    ("files_modified", .nat r.filesModified), ("total_matches", .nat r.total),
    ("auto_fixed", .nat r.autoFixed), ("manual_review", .nat r.manualReview),
    ("fix_failed", .nat r.fixFailed), ("open_violations", .nat r.openCount),
    ("compliance_score", .float r.score),
    ("breakdown", .array (r.breakdown.map Bucket.toDocument)),
    ("files", .array (r.files.map FileResult.toDocument)),
    ("skipped", .array (r.skipped.map Skipped.toDocument))]

/-- A violated threshold. -/
def Violation.toDocument (v : Violation) : Document :=
  .object [("threshold", .string v.threshold), ("actual", .float v.actual),
    ("allowed", .float v.allowed), ("locations", .strings v.locations)]

/-- The verdict of the gate. -/
def gateDocument (vs : List Violation) : Document :=
  .object [("passed", .bool vs.isEmpty), ("reasons", .strings (vs.map Violation.reason)),
    ("failures", .array (vs.map Violation.toDocument))]

/-- A report with the verdict of the gate. -/
def Report.withGate (r : Report) (vs : List Violation) : Document :=
  .object [("report", r.toDocument), ("gate", gateDocument vs)]

end DesignLint
