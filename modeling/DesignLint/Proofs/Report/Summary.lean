import DesignLint.Proofs.Report.Counts
import DesignLint.Proofs.Rule.Sample
import DesignLint.Proofs.Sort
import DesignLint.Proofs.Terminal.Styled
import DesignLint.Report.Summary

/-!
# Colour in a report for a terminal

What a report shows of its findings, of the files that were left out and of the gate are their
strings (`Report.strings`), and numbers and words of its own, which are plain. So if the strings are
plain, the report with colours is the report without them but for the escape sequences
(`stripEscapes_summary`).
-/

namespace DesignLint

/-- The strings of a finding that a report for a terminal may show. -/
def Finding.strings (f : Finding) : List String :=
  let resolution : Option (List String) :=
    f.resolution.map fun x => x.rationale :: (x.planned.toList ++ x.applied.toList)
  f.path :: f.rule :: f.snippet :: (f.value.toList ++ resolution.getD [])

/-- The strings of a file that was left out. -/
def Skipped.strings (s : Skipped) : List String :=
  match s.reason with
  | .unreadable why => [s.path, why]
  | _ => [s.path]

/-- The strings of a report that it may show on a terminal. -/
def Report.strings (r : Report) : List String :=
  r.findings.flatMap Finding.strings ++ r.skipped.flatMap Skipped.strings

/-- A styled text with plain pieces. -/
def Styled.Plain (x : Styled) : Prop := ∀ p ∈ x, DesignLint.Plain p.text

section

variable {x y : Styled} {s : String}

@[simp] theorem Styled.plain_append : Styled.Plain (x ++ y) ↔ x.Plain ∧ y.Plain :=
  List.forall_mem_append

@[simp] theorem Styled.plain_nil : Styled.Plain [] := List.forall_mem_nil _

@[simp] theorem Styled.plain_cons {p : Piece} :
    Styled.Plain (p :: x) ↔ DesignLint.Plain p.text ∧ x.Plain :=
  List.forall_mem_cons

theorem Styled.plain_flatMap {α : Type} {as : List α} {f : α → Styled} :
    Styled.Plain (as.flatMap f) ↔ ∀ a ∈ as, (f a).Plain := by
  simp only [Styled.Plain, List.mem_flatMap]
  exact ⟨fun h a ha p hp => h p ⟨a, ha, hp⟩, fun h p ⟨a, ha, hp⟩ => h a ha p hp⟩

/-! ### Findings and files -/

variable {f : Finding}

theorem plain_location (h : ∀ s ∈ f.strings, Plain s) : Plain f.location := by
  have hpath : Plain f.path := h _ (by simp [Finding.strings])
  simp +decide [Finding.location, hpath]

theorem plain_rationale (h : ∀ s ∈ f.strings, Plain s) : Plain f.rationale := by
  unfold Finding.rationale
  cases hx : f.resolution with
  | none => exact (by decide : Plain "")
  | some x => exact h _ (by simp [Finding.strings, hx])

theorem plain_fixText (h : ∀ s ∈ f.strings, Plain s) : Plain f.fixText := by
  unfold Finding.fixText
  cases hx : f.resolution with
  | none => exact (by decide : Plain "")
  | some x =>
    have hfix : Plain (x.applied.getD (x.planned.getD "")) := by
      cases ha : x.applied with
      | some a => exact h a (by simp [Finding.strings, hx, ha])
      | none =>
        cases hp : x.planned with
        | some p => exact h p (by simp [Finding.strings, hx, hp])
        | none => exact (by decide : Plain "")
    cases hv : f.value with
    | none => simpa using hfix
    | some v =>
      have hvalue : Plain v := h v (by simp [Finding.strings, hv])
      simp +decide [hvalue, hfix]

theorem Severity.plain_mark (s : Severity) : s.mark.Plain := by
  simp +decide [Severity.mark, Styled.boldInk, s.visible_name.plain]

theorem plain_manualLines (h : ∀ s ∈ f.strings, Plain s) : f.manualLines.Plain := by
  have hrule : Plain f.rule := h _ (by simp [Finding.strings])
  have hsnippet : Plain f.snippet := h _ (by simp [Finding.strings])
  simp +decide [Finding.manualLines, Styled.ink, Styled.plain, Styled.bold, f.severity.plain_mark,
    plain_location h, plain_rationale h, hrule, hsnippet]

theorem plain_fixLine (mode : RunMode) (h : ∀ s ∈ f.strings, Plain s) :
    (f.fixLine mode).Plain := by
  have hrule : Plain f.rule := h _ (by simp [Finding.strings])
  have hlabel : Plain mode.fixLabel := by cases mode <;> decide
  simp +decide [Finding.fixLine, Styled.boldInk, Styled.plain, hlabel, plain_location h, hrule,
    plain_fixText h]

theorem plain_line {s : Skipped} (h : ∀ t ∈ s.strings, Plain t) : s.line.Plain := by
  have hpath : Plain s.path := h _ (by unfold Skipped.strings; split <;> simp)
  have hmessage : Plain s.reason.message := by
    cases hr : s.reason with
    | symlinkCycle => exact (by decide : Plain "symlink cycle")
    | binary => exact (by decide : Plain "binary content")
    | tooLarge limit => simp +decide [SkipReason.message]
    | unreadable why =>
      have hwhy : Plain why := h why (by simp [Skipped.strings, hr])
      simp +decide [SkipReason.message, hwhy]
  simp +decide [Skipped.line, Styled.ink, Styled.plain, hpath, hmessage]

/-! ### Totals and verdict -/

theorem plain_percent (score : Float) : Plain (percent score) :=
  plain_append.mpr ⟨(visible_fixed 1 (score * 100)).plain, by decide⟩

theorem plain_totals (r : Report) : Plain r.totals := by
  have hheading : Plain (lowerString r.mode.fixHeading) := by cases r.mode <;> decide +kernel
  have hscore := plain_percent r.score
  unfold Report.totals
  -- the mode and the score are hidden, so that no step evaluates them
  generalize lowerString r.mode.fixHeading = heading, percent r.score = score at *
  simp +decide [hheading, hscore]

theorem Violation.plain_lines {v : Violation} (h : ∀ s ∈ v.locations, Plain s) :
    Plain v.lines := by
  have hplaces : Plain (String.join (v.locations.map fun l => "      " ++ l ++ "\n")) := by
    rw [plain_join, List.forall_mem_map]
    exact fun l hl => by simp +decide [h l hl]
  simp +decide [Violation.lines, v.visible_reason.plain, hplaces]

theorem plain_gateLines {vs : List Violation} (h : ∀ v ∈ vs, ∀ s ∈ v.locations, Plain s) :
    (gateLines vs).Plain := by
  have hlines : Plain (String.join (vs.map Violation.lines)) := by
    rw [plain_join, List.forall_mem_map]
    exact fun v hv => v.plain_lines (h v hv)
  unfold gateLines
  split <;> simp +decide [Styled.boldInk, Styled.plain, hlines]

theorem plain_summary {r : Report} {vs : List Violation}
    (h : ∀ s ∈ r.strings ++ vs.flatMap Violation.locations, Plain s) : (r.summary vs).Plain := by
  simp only [Report.strings, List.forall_mem_append, List.forall_mem_flatMap] at h
  obtain ⟨⟨hfindings, hskipped⟩, hlocations⟩ := h
  have hkind : ∀ k, ∀ f ∈ r.withConfidence k, ∀ s ∈ f.strings, Plain s := fun k f hf =>
    hfindings f (List.mem_of_mem_filter hf)
  have hmanual : Styled.Plain ((r.withConfidence .manualReview).flatMap Finding.manualLines) :=
    Styled.plain_flatMap.mpr fun f hf => plain_manualLines (hkind _ f hf)
  have hfixes : Styled.Plain ((r.withConfidence .autoFixable).flatMap (Finding.fixLine r.mode)) :=
    Styled.plain_flatMap.mpr fun f hf => plain_fixLine _ (hkind _ f hf)
  have hlines : Styled.Plain (r.skipped.flatMap Skipped.line) :=
    Styled.plain_flatMap.mpr fun s hs => plain_line (hskipped s hs)
  simp +decide [Report.summary, Styled.bold, Styled.plain, hmanual, hfixes, hlines, plain_totals r,
    plain_gateLines hlocations]

/-- **Colour changes nothing but escapes.** If the strings of a report, and the places that the gate
lists, have no escape characters, then the report with colours is the one without them once its
escape sequences are deleted. -/
theorem stripEscapes_summary (r : Report) (vs : List Violation)
    (h : ∀ s ∈ r.strings ++ vs.flatMap Violation.locations, '\x1b' ∉ s.toList) :
    stripEscapes ((r.summary vs).write true) = (r.summary vs).write false :=
  stripEscapes_write (plain_summary h)

/-- A finding, a fix, a file that was left out and a gate that has failed are written in colours. -/
theorem stripEscapes_summary_failed :
    let g := Registry.ofRules [.ofTag "button" (.substitution (some "Button") []),
      .ofColor [("#fff", "var(--w)")]]
    let color := (review g (.ofText "a.tsx" "<p className=\"bg-[#000]\"/>".toList)).result .scan
      .written
    let button := (review g (.ofText "b.tsx" "<button/>".toList)).result .scan .written
    let r : Report := .tally .scan 3 [color, button] [⟨"c.tsx", .unreadable "denied"⟩]
    let vs : List Violation := [.score 0 1 ["a.tsx:1:19", "b.tsx:1:1"]]
    stripEscapes ((r.summary vs).write true) = (r.summary vs).write false ∧
      (r.summary vs).filterMap (·.ink) = [.red, .yellow, .green, .grey, .red] := by
  intro g color button r vs
  refine ⟨stripEscapes_summary r vs ?_, ?_⟩ <;>
    simp only [r, color, button, Report.tally, review, rewrite, acceptFixes, fixableFindings,
      Registry.findings, planFix, planElement, spliceWithin, splice, mergeSort_eq_sortUpTo] <;>
    decide +kernel

end

end DesignLint
