import DesignLint.Config.Basic
import DesignLint.Document.Scalar

/-!
# Reading configurations from documents

A reader takes a `Document` and gives a value or says what it expected.  Objects may have fields
that no reader asks for, but none that is asked for twice; a structure may also be written as an
array of its fields in order, and then only trailing fields may be missing.  A structure whose form
depends on a tag has the tag as one of its fields, or as the first item of the array; its scalars
are settled before its form is known.

`Config.ofDocument` reads a whole configuration.
-/

namespace DesignLint

/-- A value, or what is wrong with the document. -/
abbrev Reading := Except String

namespace Reading

/-- Fails because something else was expected. -/
def expected {α : Type} (what : String) : Reading α := .error ("expected " ++ what)

/-- A text. -/
def text (d : Document) : Reading String :=
  match d.text? with
  | some s => .ok s
  | none => expected "a string"

/-- A natural number of at most 64 bits. -/
def natural (d : Document) : Reading Nat :=
  let settled := match d with | .plain s => Document.ofPlain s | d => d
  match settled with
  | .int n =>
    if 0 ≤ n && n.toNat < Nat.pow 2 64 then .ok n.toNat
    else expected "an unsigned 64-bit integer"
  | _ => expected "an unsigned integer"

/-- A floating-point number; an integer is one too. -/
def number (d : Document) : Reading Float :=
  let settled := match d with | .plain s => Document.ofPlain s | d => d
  match settled with
  | .float x => .ok x
  | .int n =>
    if n.natAbs < (if n < 0 then Nat.pow 2 63 + 1 else Nat.pow 2 64) then
      .ok (if n < 0 then -(Float.ofNat n.natAbs) else Float.ofNat n.natAbs)
    else expected "a number"
  | _ => expected "a number"

/-- Whether a document stands for an absent value. -/
def isAbsent : Document → Bool
  | .null => true
  | .plain s => Document.isNullWord s
  | _ => false

/-- A value that may be absent. -/
def optional {α : Type} (read : Document → Reading α) (d : Document) : Reading (Option α) :=
  if isAbsent d then .ok none else some <$> read d

/-- A list of values. -/
def list {α : Type} (read : Document → Reading α) (d : Document) : Reading (List α) :=
  match d with
  | .array ds => ds.mapM read
  | .plain "" => .ok []
  | _ => expected "a sequence"

/-- The keys and values of a document that has any. -/
def entries (d : Document) : Reading (List (Document × Document)) :=
  match d with
  | .object fs => .ok (fs.map fun f => (.string f.1, f.2))
  | .mapping es => .ok es
  | .plain "" => .ok []
  | _ => expected "a map"

/-- A table; of entries with one key the last one counts. -/
def table {κ α : Type} [BEq κ] (readKey : Document → Reading κ) (read : Document → Reading α)
    (d : Document) : Reading (List (κ × α)) := do
  let es ← entries d
  let es ← es.mapM fun e => do return (← readKey e.1, ← read e.2)
  return es.foldl (fun done e => done.filter (fun other => !(other.1 == e.1)) ++ [e]) []

/-- One of the names of a closed set.  A name may also stand alone as a key without a value. -/
def named {α : Type} (what : String) (ofName? : String → Option α) (d : Document) : Reading α := do
  let name ←
    match d with
    | .object [(name, .null)] => .ok name
    | d => text d
  match ofName? name with
  | some a => return a
  | none => expected what

/-- The fields of a structure that were found, by name. -/
abbrev Fields := List (String × Document)

/-- The fields of a structure among entries, none of them twice. -/
def fieldsOfEntries (names : List String) (es : List (Document × Document)) : Reading Fields := do
  let found := es.filterMap fun e => e.1.text?.bind fun key =>
    if names.contains key then some (key, e.2) else none
  if (found.map (·.1)).Nodup then return found else .error "duplicate field"

/-- The fields of a structure with given names, in order; written as an array, the first `least`
fields must be there. -/
def fields (names : List String) (least : Nat) (d : Document) : Reading Fields :=
  match d with
  | .array ds =>
    if ds.length < least || names.length < ds.length then expected "a structure"
    else .ok (names.zip ds)
  | d => do fieldsOfEntries names (← entries d)

/-- A field that must be there. -/
def required {α : Type} (fs : Fields) (name : String) (read : Document → Reading α) : Reading α :=
  match fs.lookup name with
  | some d => read d
  | none => .error ("missing field " ++ name)

/-- A field with a default. -/
def defaulted {α : Type} (fs : Fields) (name : String) (default : α)
    (read : Document → Reading α) : Reading α :=
  match fs.lookup name with
  | some d => read d
  | none => .ok default

/-- A field whose value may be absent. -/
def absentable {α : Type} (fs : Fields) (name : String) (read : Document → Reading α) :
    Reading (Option α) :=
  defaulted fs name none (optional read)

/-- Splits the tag off a structure whose form depends on it; the rest is settled. -/
def tagged (tag : String) (d : Document) : Reading (String × Document) :=
  match d with
  | .array (t :: ds) => do return (← text t, (Document.array ds).settle)
  | .object fs => do
    match fs.filter (·.1 == tag) with
    | [(_, t)] => return (← text t, .object (fs.filter (·.1 != tag)))
    | _ => .error ("one field " ++ tag ++ " expected")
  | .mapping es => do
    let isTag (key : Document) : Bool :=
      match key.settle with
      | .string s => s == tag
      | _ => false
    match es.filter (isTag ·.1) with
    | [(_, t)] => return (← text t, (Document.mapping (es.filter (!isTag ·.1))).settle)
    | _ => .error ("one field " ++ tag ++ " expected")
  | _ => expected "a structure"

end Reading

open Reading

/-- A pattern. -/
def PatternSpec.ofDocument (d : Document) : Reading PatternSpec := do
  let (kind, d) ← tagged "kind" d
  match kind with
  | "tag" =>
    let fs ← fields ["name"] 1 d
    return .tag (← required fs "name" text)
  | "declaration" =>
    let fs ← fields ["properties", "classes", "value"] 0 d
    return .declaration (← defaulted fs "properties" [] (list text))
      (← defaulted fs "classes" [] (list text)) (← absentable fs "value" text)
  | "regex" =>
    let fs ← fields ["regex"] 1 d
    return .regex (← required fs "regex" text)
  | _ => expected "tag, declaration or regex"

/-- A variant mapping. -/
def VariantMapping.ofDocument (d : Document) : Reading VariantMapping := do
  let fs ← fields ["all", "none", "value"] 3 d
  return ⟨← defaulted fs "all" [] (list text), ← defaulted fs "none" [] (list text),
    ← required fs "value" text⟩

/-- The attribute that class names are turned into unless a rule names another one. -/
def defaultTarget : String := "variant"

/-- A fix. -/
def AutofixSpec.ofDocument (d : Document) : Reading AutofixSpec := do
  let (strategy, d) ← tagged "strategy" d
  match strategy with
  | "none" => return .none
  | "direct-substitution" =>
    let fs ← fields ["component", "replacements"] 0 d
    return .substitution (← absentable fs "component" text)
      (← defaulted fs "replacements" [] (table text text))
  | "attribute-remap" =>
    let fs ← fields ["component", "attribute", "default", "mappings"] 1 d
    return .remap (← required fs "component" text)
      (← defaulted fs "attribute" defaultTarget text) (← absentable fs "default" text)
      (← defaulted fs "mappings" [] (list VariantMapping.ofDocument))
  | _ => expected "none, direct-substitution or attribute-remap"

/-- A piece of code before and after a fix. -/
def Sample.ofDocument (d : Document) : Reading Sample := do
  let fs ← fields ["before", "after"] 2 d
  return ⟨← required fs "before" text, ← required fs "after" text⟩

/-- A category. -/
def Category.ofDocument : Document → Reading Category := named "a category" Category.ofName?

/-- A severity. -/
def Severity.ofDocument : Document → Reading Severity := named "a severity" Severity.ofName?

/-- A rule. -/
def RuleSpec.ofDocument (d : Document) : Reading RuleSpec := do
  let names :=
    ["id", "category", "severity", "pattern", "autofix", "message", "remediation", "example"]
  let fs ← fields names 4 d
  return {
    id := ← required fs "id" text
    category := ← required fs "category" Category.ofDocument
    severity := ← required fs "severity" Severity.ofDocument
    pattern := ← required fs "pattern" PatternSpec.ofDocument
    autofix := ← defaulted fs "autofix" .none AutofixSpec.ofDocument
    message := ← absentable fs "message" text
    remediation := ← absentable fs "remediation" text
    sample := ← absentable fs "example" Sample.ofDocument }

/-- A limit. -/
def Limit.ofDocument (d : Document) : Reading Limit := do
  let fs ← fields ["category", "severity", "max_open"] 3 d
  return ⟨← absentable fs "category" Category.ofDocument,
    ← absentable fs "severity" Severity.ofDocument, ← required fs "max_open" natural⟩

/-- Thresholds. -/
def Thresholds.ofDocument (d : Document) : Reading Thresholds := do
  let fs ← fields ["min_compliance_score", "limits"] 0 d
  return ⟨← absentable fs "min_compliance_score" number,
    ← defaulted fs "limits" [] (list Limit.ofDocument)⟩

/-- A configuration. -/
def Config.ofDocument (d : Document) : Reading Config := do
  let names :=
    ["paths", "include", "exclude", "extensions", "max_file_size", "jobs", "report_format", "rules",
      "approved_tokens", "thresholds"]
  let fs ← fields names 7 d
  return {
    paths := ← absentable fs "paths" (list text)
    included := ← absentable fs "include" (list text)
    excluded := ← absentable fs "exclude" (list text)
    extensions := ← absentable fs "extensions" (list text)
    maxFileSize := ← absentable fs "max_file_size" natural
    jobs := ← absentable fs "jobs" natural
    reportFormat := ← absentable fs "report_format" text
    rules := ← defaulted fs "rules" [] (list RuleSpec.ofDocument)
    approved := ← defaulted fs "approved_tokens" [] (table Category.ofDocument (list text))
    thresholds := ← defaulted fs "thresholds" .lenient Thresholds.ofDocument }

end DesignLint
