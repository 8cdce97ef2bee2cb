import DesignLint.Proofs.Gate.Verdict
import DesignLint.Proofs.Report.Aggregate

/-!
# Fixing eases the gate

A report eases another one if it has no more open findings in any slice, and no lower score; then it
violates no threshold that the other one meets, and those it violates by no more
(`evaluate_eases`). A run that fixes some files finds what a scan finds (`map_kind_finalFindings`),
and what is open after it is a part of that, since in a scan every finding is open
(`evaluate_eases_of_aggregate`). So its report eases that of the scan, whichever writes fail
(`fix_eases_gate`).
-/

namespace DesignLint

/-- A violation of a threshold that another one violates by at least as much. -/
inductive Violation.Eases {σ : Type} [LE σ] : Violation σ → Violation σ → Prop
  | score {actual actual' least : σ} (places places' : List String) (h : actual' ≤ actual) :
    Eases (.score actual least places) (.score actual' least places')
  | limit {slice : Limit} {count count' : Nat} (places places' : List String)
    (h : count ≤ count') : Eases (.limit slice count places) (.limit slice count' places')

/-! ### Evaluation -/

section

variable {σ : Type} [LinearOrder σ] {a b : Report σ}

/-- **A report with no more open findings, and no lower score, violates no more thresholds.** -/
theorem evaluate_eases (hscore : b.score ≤ a.score)
    (hopen : ∀ c s, (a.openFindings c s).length ≤ (b.openFindings c s).length)
    (t : Thresholds σ) :
    List.SublistForall₂ Violation.Eases (evaluate t a) (evaluate t b) := by
  have hlimits : ∀ ls : List Limit, List.SublistForall₂ Violation.Eases
      (ls.filterMap (limitViolation? a)) (ls.filterMap (limitViolation? b)) := by
    intro ls
    simp only [List.filterMap_eq_flatMap_toList]
    induction ls with
    | nil => exact .nil
    | cons l ls ih =>
      refine sublistForall₂_toList_append (fun x hx => ?_) ih
      have hle := hopen l.category l.severity
      simp only [limitViolation?, Option.mem_def] at hx ⊢
      split_ifs at hx with hlt
      cases hx
      rw [if_pos (Nat.lt_of_lt_of_le hlt hle)]
      exact ⟨_, rfl, .limit _ _ hle⟩
  refine sublistForall₂_toList_append (fun x hx => ?_) (hlimits t.limits)
  obtain ⟨least, hleast, hx⟩ := Option.bind_eq_some_iff.mp hx
  simp only [scoreViolation?, Option.mem_def, hleast, Option.bind_some] at hx ⊢
  split_ifs at hx with hlt
  cases hx
  rw [if_pos (lt_of_le_of_lt hscore hlt)]
  exact ⟨_, rfl, .score _ _ hscore⟩

end

/-! ### Aggregated reports -/

/-- The slice of a finding. -/
def Finding.kind (f : Finding) : Category × Severity := (f.category, f.severity)

section

variable {mode : RunMode} {n m : Nat} {files files' : List FileResult}
  {skipped skipped' : List Skipped} {r scan fix : Report ℚ}

/-- **The more findings are open, the lower the score.** -/
theorem complianceScore_le {k l total : Nat} (h : k ≤ l) :
    (complianceScore l total : ℚ) ≤ complianceScore k total := by
  unfold complianceScore
  split_ifs
  · exact le_refl 1
  · exact sub_le_sub_left
      (div_le_div_of_nonneg_right (Nat.cast_le.mpr h) (Nat.cast_nonneg total)) 1

theorem perm_sorted_findings (files : List FileResult) :
    ((files.mergeSort fun a b => a.path ≤ b.path).flatMap (·.findings)).Perm
      (files.flatMap (·.findings)) :=
  (List.mergeSort_perm files _).flatMap_right _

theorem Report.length_openFindings (h : aggregate mode n files skipped = .ok r)
    (c : Option Category) (s : Option Severity) :
    (r.openFindings c s).length =
      (files.flatMap (·.findings)).countP fun f => f.isOpen mode && inSlice c s f := by
  rw [eq_tally_of_aggregate h, openFindings, ← List.countP_eq_length_filter, findings_tally]
  exact (perm_sorted_findings files).countP_eq _

theorem Report.score_eq (h : aggregate mode n files skipped = .ok r) :
    r.score = complianceScore (r.openFindings none none).length
      (files.flatMap (·.findings)).length := by
  have hopen : (fun f : Finding => f.isOpen mode && inSlice none none f) = (·.isOpen mode) := by
    funext f
    simp [inSlice]
  rw [length_openFindings h, hopen, ← (perm_sorted_findings files).countP_eq,
    ← (perm_sorted_findings files).length_eq, eq_tally_of_aggregate h]
  rfl

theorem countP_inSlice_congr {fs gs : List Finding} (h : fs.map Finding.kind = gs.map Finding.kind)
    (c : Option Category) (s : Option Severity) :
    fs.countP (Report.inSlice c s) = gs.countP (Report.inSlice c s) := by
  have hkind : Report.inSlice c s =
      (fun k => c.all (k.1 == ·) && s.all (k.2 == ·)) ∘ Finding.kind := rfl
  rw [hkind, ← List.countP_map, ← List.countP_map, h]

/-- A report on findings that are fixed eases the one on those that are not. -/
theorem evaluate_eases_of_aggregate (hscan : Report.aggregate .scan n files skipped = .ok scan)
    (hfix : Report.aggregate .fix m files' skipped' = .ok fix)
    (hkinds : (files'.flatMap (·.findings)).map Finding.kind =
      (files.flatMap (·.findings)).map Finding.kind) (t : Thresholds ℚ) :
    List.SublistForall₂ Violation.Eases (evaluate t fix) (evaluate t scan) := by
  have hopen : ∀ c s, (fix.openFindings c s).length ≤ (scan.openFindings c s).length := by
    intro c s
    rw [Report.length_openFindings hfix, Report.length_openFindings hscan]
    calc (files'.flatMap (·.findings)).countP (fun f => f.isOpen .fix && Report.inSlice c s f)
      _ ≤ (files'.flatMap (·.findings)).countP (Report.inSlice c s) :=
        List.countP_mono_left fun f _ hf => (Bool.and_eq_true _ _ ▸ hf).2
      _ = (files.flatMap (·.findings)).countP (Report.inSlice c s) := countP_inSlice_congr hkinds c s
      -- in a scan every finding is open
      _ = _ := rfl
  refine evaluate_eases ?_ hopen t
  have htotal := congrArg List.length hkinds
  rw [List.length_map, List.length_map] at htotal
  rw [Report.score_eq hscan, Report.score_eq hfix, htotal]
  exact complianceScore_le (hopen none none)

end

/-! ### Runs on the same files -/

section

variable {c : Config} {g : Registry}

theorem map_kind_finalFindings (r : Review) (mode : RunMode) (write : WriteOutcome) :
    (r.finalFindings mode write).map Finding.kind = r.findings.map Finding.kind := by
  refine List.ext_getElem? fun i => ?_
  rw [List.getElem?_map, List.getElem?_map, r.getElem?_finalFindings, Option.map_map]
  rfl

/-- The results of the modes for the same files have findings of the same kinds. -/
theorem map_kind_results (g : Registry) (files : List (Source × WriteOutcome)) (mode : RunMode)
    (write : Source × WriteOutcome → WriteOutcome) :
    ((files.map fun f => (review g f.1).result mode (write f)).flatMap (·.findings)).map
      Finding.kind = files.flatMap fun f => (review g f.1).findings.map Finding.kind := by
  rw [List.flatMap_map, List.map_flatMap]
  exact List.flatMap_congr fun f _ => map_kind_finalFindings _ mode (write f)

/-- **Fixing eases the gate.** Whichever files cannot be written, every threshold that the report
of a run that fixes violates is violated by that of a scan of the same files, and by no less; so if
the scan passes, so does the run that fixes. -/
theorem fix_eases_gate (hg : Registry.ofConfig c = .ok g) (files : List (Source × WriteOutcome))
    (n m : Nat) (skipped skipped' : List Skipped) : ∃ scan fix : Report ℚ,
      Report.aggregate .scan n (files.map fun f => (review g f.1).result .scan .written) skipped =
        .ok scan ∧
      Report.aggregate .fix m (files.map fun f => (review g f.1).result .fix f.2) skipped' =
        .ok fix ∧
      ∀ t : Thresholds ℚ,
        List.SublistForall₂ Violation.Eases (evaluate t fix) (evaluate t scan) ∧
        (evaluate t scan = [] → evaluate t fix = []) := by
  have hresults : ∀ (mode : RunMode) (write : Source × WriteOutcome → WriteOutcome),
      ∀ r ∈ files.map fun f => (review g f.1).result mode (write f),
        ∃ file write, r = (review g file).result mode write := by
    intro mode write r hr
    obtain ⟨f, -, rfl⟩ := List.mem_map.mp hr
    exact ⟨f.1, write f, rfl⟩
  have hscan := @Report.aggregate_eq_ok .scan n _ skipped
    (flaw?_eq_none_of_mem_results hg (hresults .scan fun _ => .written))
  have hfix := @Report.aggregate_eq_ok .fix m _ skipped'
    (flaw?_eq_none_of_mem_results hg (hresults .fix Prod.snd))
  refine ⟨_, _, hscan, hfix, fun t => ?_⟩
  have heases := evaluate_eases_of_aggregate hscan hfix
    (by rw [map_kind_results g files .fix Prod.snd, map_kind_results g files .scan fun _ => .written])
    t
  refine ⟨heases, fun hnil => ?_⟩
  rw [hnil] at heases
  generalize evaluate t _ = vs at heases ⊢
  cases heases
  rfl

/-- Of two files, one can be written and one cannot; then the score suffices, but not all is gone. -/
theorem fix_eases_gate_unwritable :
    let g := Registry.ofRules [.ofTag "button" (.substitution (some "Button") []),
      .ofColor [("#fff", "var(--w)")]]
    let files := [(Source.ofText "b.tsx" "<button/>".toList, WriteOutcome.written),
      (.ofText "a.tsx" "<p className=\"bg-[#fff]\"/>".toList, .failed "read-only")]
    let t : Thresholds ℚ := ⟨some (1 / 4), [⟨some .colorToken, none, 0⟩, ⟨none, some .high, 1⟩]⟩
    ∃ scan fix : Report ℚ,
      Report.aggregate .scan 2 (files.map fun f => (review g f.1).result .scan .written) [] =
        .ok scan ∧
      Report.aggregate .fix 2 (files.map fun f => (review g f.1).result .fix f.2) [] = .ok fix ∧
      (evaluate t scan).map Violation.threshold =
        ["min compliance score", "max open color-token / any severity",
          "max open any category / high"] ∧
      (evaluate t fix).map Violation.threshold = ["max open color-token / any severity"] ∧
      List.SublistForall₂ Violation.Eases (evaluate t fix) (evaluate t scan) := by
  intro g files t
  have hg : Registry.ofConfig (.ofRules [.ofTag "button" (.substitution (some "Button") []),
      .ofColor [("#fff", "var(--w)")]]) = .ok g := rfl
  obtain ⟨scan, fix, hscan, hfix, heases⟩ := fix_eases_gate hg files 2 2 [] []
  refine ⟨scan, fix, hscan, hfix, ?_, ?_, (heases t).1⟩
  · rw [Report.eq_tally_of_aggregate hscan]
    simp only [g, files, t, Report.tally, complianceScore, review, rewrite, acceptFixes,
      fixableFindings, Registry.findings, planFix, planElement, spliceWithin, splice,
      mergeSort_eq_sortUpTo]
    decide +kernel
  · rw [Report.eq_tally_of_aggregate hfix]
    simp only [g, files, t, Report.tally, complianceScore, review, rewrite, acceptFixes,
      fixableFindings, Registry.findings, planFix, planElement, spliceWithin, splice,
      mergeSort_eq_sortUpTo]
    decide +kernel

end

end DesignLint
