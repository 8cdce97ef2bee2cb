import DesignLint.Digest
import DesignLint.Finding.Search
import DesignLint.Fix.Rewrite

/-!
# Reviewing a file

`review` finds, triages and plans everything in one file.  What it says does not depend on whether
fixes are to be written; `Review.result` adds what a mode, and the outcome of a write, make of it.
-/

namespace DesignLint

/-- What has been found in a file, with every fix planned or given up, and the fixed text. -/
structure Review where
  source : Source
  findings : List Finding
  /-- The replacements of the fixed findings, by index. -/
  applied : List (Nat × Text)
  text : Text

/-- What becomes of an attempt to write a file. -/
inductive WriteOutcome
  | written
  | failed (why : String)
deriving DecidableEq, Repr

/-- The findings in a file, and what a write has made of the file. -/
structure FileResult where
  path : String
  findings : List Finding
  hashBefore : String
  hashAfter : String
  written : Bool
deriving DecidableEq, Repr

/-- Changes the resolution of a finding that has one. -/
def Finding.resolve (change : Resolution → Resolution) (f : Finding) : Finding :=
  { f with resolution := f.resolution.map change }

/-- Triages a finding by its rule, if the rule is known. -/
def Registry.triageFinding (g : Registry) (f : Finding) : Finding :=
  match g.rule? f.rule with
  | some r => { f with resolution := some (triage r f.site) }
  | none => f

/-- Changes the resolutions of some findings, each by what is listed under its index. -/
def resolveEach {α : Type} (changes : List (Nat × α)) (change : α → Resolution → Resolution)
    (fs : List Finding) : List Finding :=
  fs.mapIdx fun i f =>
    match changes.lookup i with
    | some a => f.resolve (change a)
    | none => f

/-- Records a planned replacement. -/
def Resolution.plan (t : Text) (r : Resolution) : Resolution :=
  { r with planned := some (String.ofList t) }

/-- Records a replacement that the file shows. -/
def Resolution.apply (t : Text) (r : Resolution) : Resolution :=
  { r with applied := some (String.ofList t) }

/-- Reviews a file. -/
def review (g : Registry) (file : Source) : Review :=
  let found := (g.findings file).map g.triageFinding
  let w := rewrite g file.text found
  let demoted := resolveEach w.failed (fun failure _ => .demote failure) found
  ⟨file, resolveEach w.applied .plan demoted, w.applied, w.text⟩

namespace Review

/-- Whether fixing changes the text. -/
def changed (r : Review) : Bool := r.text != r.source.text

/-- Whether the fixed text is to be written. -/
def wantsWrite (r : Review) (mode : RunMode) : Bool := mode.writes && r.changed

/-- The fixed text, if it is to be shown. -/
def preview? (r : Review) (mode : RunMode) : Option Text :=
  if mode == .dryRun && r.changed then some r.text else none

/-- The findings after a run: when fixes are written, those that the file shows are recorded, and
those that could not be written are demoted. -/
def finalFindings (r : Review) (mode : RunMode) (write : WriteOutcome) : List Finding :=
  if !mode.writes then r.findings
  else if !r.changed then resolveEach r.applied .apply r.findings
  else
    match write with
    | .written => resolveEach r.applied .apply r.findings
    | .failed why => resolveEach r.applied (fun _ _ => .demote (.writeFailed why)) r.findings

/-- The result for a file; `write` counts only if a write is wanted. -/
def result (r : Review) (mode : RunMode) (write : WriteOutcome) : FileResult :=
  let before := r.source.text.digest
  let written := r.wantsWrite mode && write == .written
  ⟨r.source.path, r.finalFindings mode write, before,
    if written then r.text.digest else before, written⟩

end Review

end DesignLint
