import DesignLint.Proofs.Report.Counts
import DesignLint.Proofs.Rule.Sample
import DesignLint.Proofs.Run.Resolution
import Mathlib.Algebra.Order.Field.Basic
import Mathlib.Algebra.Order.Field.Rat
import Mathlib.Algebra.Order.Ring.Cast
import Mathlib.Data.Rat.Cast.Order

/-!
# Reports have no flaw

What `tally` counts agrees with what `verify` counts again: the two confidences share out the
findings (`countP_confidence`), the buckets do (`count_bucketsOf`), and the score lies between 0 and
1 (`complianceScore_mem`). So a report has a flaw only if one of its findings has one
(`aggregate_eq_ok`), and no finding of reviewed files has, whatever has become of the writes
(`flaw?_eq_none_of_mem_results`, `aggregate_results`).

Scores are computed with rational numbers here, which do not round.
-/

namespace DesignLint

instance : OfCount ℚ := ⟨Nat.cast⟩

/-! ### Counting -/

section

variable {fs : List Finding}

theorem confidence_of_isSome {f : Finding} (h : f.resolution.isSome) :
    ∃ k, f.confidence = some k := by
  obtain ⟨x, hx⟩ := Option.isSome_iff_exists.mp h
  exact ⟨x.confidence, by rw [Finding.confidence, hx, Option.map_some]⟩

theorem countP_confidence (h : ∀ f ∈ fs, f.resolution.isSome) :
    fs.countP (·.confidence == some .autoFixable) + fs.countP (·.confidence == some .manualReview) =
      fs.length := by
  induction fs with
  | nil => rfl
  | cons f fs ih =>
    obtain ⟨k, hk⟩ := confidence_of_isSome (h f (by simp))
    have := ih fun f hf => h f (by simp [hf])
    simp only [List.countP_cons, hk, List.length_cons]
    cases k <;> simp <;> omega

/-- Each finding belongs to one kind of bucket. -/
theorem countP_bucketKinds {f : Finding} (h : f.resolution.isSome) :
    bucketKinds.countP f.isIn = 1 := by
  obtain ⟨k, hk⟩ := confidence_of_isSome h
  unfold Finding.isIn
  rw [hk]
  generalize f.category = category
  generalize f.severity = severity
  cases category <;> cases severity <;> cases k <;> rfl

theorem sum_map_add_countP {α : Type} (n : α → Nat) (p : α → Bool) (ks : List α) :
    (ks.map fun k => n k + if p k then 1 else 0).sum = (ks.map n).sum + ks.countP p := by
  induction ks with
  | nil => rfl
  | cons k ks ih =>
    simp only [List.map_cons, List.sum_cons, ih, List.countP_cons]
    omega

theorem sum_countP_isIn {kinds : List (Category × Severity × Confidence)}
    (h : ∀ f ∈ fs, kinds.countP f.isIn = 1) :
    (kinds.map fun k => fs.countP (·.isIn k)).sum = fs.length := by
  induction fs with
  | nil => simp
  | cons f fs ih =>
    simp only [List.countP_cons, List.length_cons]
    rw [sum_map_add_countP, ih fun f hf => h f (by simp [hf]), h f (by simp)]

theorem foldl_count_filter (bs : List Bucket) (n : Nat) :
    (bs.filter (·.count != 0)).foldl (fun n b => n + b.count) n = n + (bs.map (·.count)).sum := by
  induction bs generalizing n with
  | nil => rfl
  | cons b bs ih =>
    rw [List.filter_cons, List.map_cons, List.sum_cons]
    split_ifs with hb
    · rw [List.foldl_cons, ih, Nat.add_assoc]
    · rw [ih]
      simp only [bne_iff_ne, ne_eq, not_not] at hb
      omega

/-- **The buckets count each finding once.** -/
theorem count_bucketsOf (h : ∀ f ∈ fs, f.resolution.isSome) :
    (bucketsOf fs).foldl (fun n b => n + b.count) 0 = fs.length := by
  have hkinds := sum_countP_isIn fun f hf => countP_bucketKinds (h f hf)
  simp only [bucketsOf]
  rw [foldl_count_filter, List.map_map, Nat.zero_add, ← hkinds]
  rfl

/-- **A score lies between 0 and 1.** -/
theorem complianceScore_mem {openCount total : Nat} (h : openCount ≤ total) :
    0 ≤ (complianceScore openCount total : ℚ) ∧ (complianceScore openCount total : ℚ) ≤ 1 := by
  unfold complianceScore
  split_ifs with ht
  · exact ⟨zero_le_one, le_refl 1⟩
  · rw [beq_iff_eq] at ht
    have hpos : (0 : ℚ) < total := Nat.cast_pos.mpr (Nat.pos_of_ne_zero ht)
    have hshare : (openCount : ℚ) / total ≤ 1 := (div_le_one hpos).mpr (Nat.cast_le.mpr h)
    have hnonneg : (0 : ℚ) ≤ (openCount : ℚ) / total :=
      div_nonneg (Nat.cast_nonneg openCount) (Nat.cast_nonneg total)
    exact ⟨sub_nonneg.mpr hshare, sub_le_self 1 hnonneg⟩

end

/-! ### Flaws of findings -/

section

variable {σ : Type} {mode : RunMode} {f : Finding}

theorem Finding.isSome_of_flaw? (h : (f.flaw? mode : Option (ReportFlaw σ)) = none) :
    f.resolution.isSome := by
  unfold flaw? at h
  split at h
  · cases h
  · next x hx => rw [hx, Option.isSome_some]

theorem Finding.flaw?_eq_none {x : Resolution} (hx : f.resolution = some x)
    (h : x.inconsistency? mode = none) : (f.flaw? mode : Option (ReportFlaw σ)) = none := by
  unfold flaw?
  rw [hx]
  simp only [h, Option.map_none]

end

/-! ### Reports -/

namespace Report

variable {mode : RunMode} {n : Nat} {files : List FileResult} {skipped : List Skipped}

/-- No finding is left out of a report. -/
theorem findings_tally {σ : Type} [OfCount σ] [OfNat σ 1] [Sub σ] [Div σ] :
    (tally mode n files skipped : Report σ).findings = files.flatMap (·.findings) := by
  simp only [tally, findings]
  induction files with
  | nil => rfl
  | cons f files ih =>
    rw [List.filter_cons, List.flatMap_cons, ← ih]
    split_ifs with hf
    · rw [List.flatMap_cons]
    · simp only [Bool.or_eq_true, Bool.not_eq_true', not_or, Bool.not_eq_false,
        List.isEmpty_iff] at hf
      rw [hf.1, List.nil_append]

/-- A report that is made is the tally of what it was made of. -/
theorem eq_tally_of_aggregate {σ : Type} [OfCount σ] [OfNat σ 1] [Sub σ] [Div σ] [OfNat σ 0] [LE σ]
    [DecidableLE σ] {r : Report σ} (h : aggregate mode n files skipped = .ok r) :
    r = tally mode n (files.mergeSort fun a b => a.path ≤ b.path)
      (skipped.mergeSort fun a b => a.path ≤ b.path) := by
  rw [aggregate_eq] at h
  split at h
  · cases h
  · simp only at h
    split at h
    · cases h
      rfl
    · cases h

theorem verify_tally (h : ∀ f ∈ files.flatMap (·.findings),
    (f.flaw? mode : Option (ReportFlaw ℚ)) = none) :
    (tally mode n files skipped : Report ℚ).verify = .ok () := by
  have hsome : ∀ f ∈ files.flatMap (·.findings), f.resolution.isSome := fun f hf =>
    Finding.isSome_of_flaw? (h f hf)
  have hflaw : (files.flatMap (·.findings)).findSome?
      (fun f => (f.flaw? mode : Option (ReportFlaw ℚ))) = none := List.findSome?_eq_none_iff.mpr h
  have hcounts := countP_confidence hsome
  have hbuckets := count_bucketsOf hsome
  obtain ⟨hnonneg, hle⟩ := complianceScore_mem
    (List.countP_le_length (p := fun f : Finding => f.isOpen mode)
      (l := files.flatMap (·.findings)))
  simp only [verify, findings_tally]
  simp only [tally, hcounts, hbuckets, hflaw, hnonneg, hle]
  simp

/-- **Without flaw in the findings, aggregation gives their tally.** -/
theorem aggregate_eq_ok (h : ∀ f ∈ files.flatMap (·.findings),
    (f.flaw? mode : Option (ReportFlaw ℚ)) = none) :
    (aggregate mode n files skipped : Except (ReportFlaw ℚ) (Report ℚ)) =
      .ok (tally mode n (files.mergeSort fun a b => a.path ≤ b.path)
        (skipped.mergeSort fun a b => a.path ≤ b.path)) := by
  have hsorted : ∀ f ∈ (files.mergeSort fun a b => a.path ≤ b.path).flatMap (·.findings),
      (f.flaw? mode : Option (ReportFlaw ℚ)) = none := by
    intro f hf
    obtain ⟨r, hr, hf⟩ := List.mem_flatMap.mp hf
    exact h f (List.mem_flatMap.mpr ⟨r, List.mem_mergeSort.mp hr, hf⟩)
  have hresolved : ((files.mergeSort fun a b => a.path ≤ b.path).flatMap (·.findings)).find?
      (·.resolution.isNone) = none := by
    rw [List.find?_eq_none]
    intro f hf
    rw [← Option.not_isSome, Finding.isSome_of_flaw? (hsorted f hf)]
    decide
  simp only [aggregate_eq, hresolved, verify_tally hsorted]

end Report

/-! ### Reviewed files -/

section

variable {c : Config} {g : Registry} {file : Source} {mode : RunMode} {write : WriteOutcome}

/-- What the end of a run makes of a reviewed resolution is consistent. -/
theorem Resolution.Reviewed.inconsistency?_eq_none {t? : Option Text} {x : Resolution}
    (h : x.Reviewed t?) (r : Review) (mode : RunMode) (write : WriteOutcome) :
    (t?.elim id (r.conclude mode write) x).inconsistency? mode = none := by
  cases h with
  | manual why => rfl
  | failed failure => rfl
  | planned why t =>
    simp only [Option.elim_some, Review.conclude]
    split_ifs with hmode hchanged
    · rw [Bool.not_eq_true'] at hmode
      simp [inconsistency?, plan, fixable, hmode]
    · rw [Bool.not_eq_true', Bool.not_eq_false] at hmode
      simp [inconsistency?, plan, fixable, apply, hmode]
    · rw [Bool.not_eq_true', Bool.not_eq_false] at hmode
      cases write with
      | written => simp [inconsistency?, plan, fixable, apply, hmode]
      | failed why => rfl

theorem flaw?_eq_none_of_mem_result {σ : Type} (hg : Registry.ofConfig c = .ok g) {f : Finding}
    (hf : f ∈ ((review g file).result mode write).findings) :
    (f.flaw? mode : Option (ReportFlaw σ)) = none := by
  obtain ⟨i, hi⟩ := List.mem_iff_getElem?.mp hf
  rw [Review.result, Review.getElem?_finalFindings] at hi
  obtain ⟨f₁, hf₁, rfl⟩ := Option.map_eq_some_iff.mp hi
  obtain ⟨x, hx, hreviewed⟩ := exists_reviewed hg hf₁
  refine Finding.flaw?_eq_none ?_ (hreviewed.inconsistency?_eq_none (review g file) mode write)
  rw [Finding.resolve, hx, Option.map_some]

theorem flaw?_eq_none_of_mem_results {σ : Type} (hg : Registry.ofConfig c = .ok g)
    {files : List FileResult}
    (hfiles : ∀ r ∈ files, ∃ file write, r = (review g file).result mode write) :
    ∀ f ∈ files.flatMap (·.findings), (f.flaw? mode : Option (ReportFlaw σ)) = none := by
  intro f hf
  obtain ⟨r, hr, hf⟩ := List.mem_flatMap.mp hf
  obtain ⟨file, write, rfl⟩ := hfiles r hr
  exact flaw?_eq_none_of_mem_result hg hf

/-- **Reviewed files make a report**, in whatever order they come and whichever writes fail. -/
theorem aggregate_results (hg : Registry.ofConfig c = .ok g) (mode : RunMode)
    {files : List FileResult}
    (hfiles : ∀ r ∈ files, ∃ file write, r = (review g file).result mode write)
    (filesScanned : Nat) (skipped : List Skipped) :
    (Report.aggregate mode filesScanned files skipped : Except (ReportFlaw ℚ) (Report ℚ)) =
      .ok (Report.tally mode filesScanned (files.mergeSort fun a b => a.path ≤ b.path)
        (skipped.mergeSort fun a b => a.path ≤ b.path)) := by
  have hflaw : ∀ f ∈ files.flatMap (·.findings), (f.flaw? mode : Option (ReportFlaw ℚ)) = none :=
    flaw?_eq_none_of_mem_results hg hfiles
  exact Report.aggregate_eq_ok hflaw

/-- Of two files, one can be written and one cannot. -/
theorem aggregate_results_unwritable :
    let g := Registry.ofRules [.ofTag "button" (.substitution (some "Button") []),
      .ofColor [("#fff", "var(--w)")]]
    let written := (review g (.ofText "b.tsx" "<button/>".toList)).result .fix .written
    let failed := (review g (.ofText "a.tsx" "<p className=\"bg-[#fff]\"/>".toList)).result .fix
      (.failed "read-only")
    ∃ r : Report ℚ, (Report.aggregate .fix 2 [written, failed] [] :
        Except (ReportFlaw ℚ) (Report ℚ)) = .ok r ∧
      r.files = [failed, written] ∧ r.autoFixed = 1 ∧ r.fixFailed = 1 ∧ r.score = 1 / 2 := by
  intro g written failed
  have hg : Registry.ofConfig (.ofRules [.ofTag "button" (.substitution (some "Button") []),
      .ofColor [("#fff", "var(--w)")]]) = .ok g := rfl
  have hfiles : ∀ r ∈ [written, failed], ∃ file write, r = (review g file).result .fix write := by
    simp only [List.mem_cons, List.not_mem_nil, or_false]
    rintro r (rfl | rfl)
    exacts [⟨_, _, rfl⟩, ⟨_, _, rfl⟩]
  refine ⟨_, aggregate_results hg .fix hfiles 2 [], ?_⟩
  simp only [written, failed, Report.tally, complianceScore, review, rewrite, acceptFixes,
    fixableFindings, Registry.findings, planFix, planElement, spliceWithin, splice,
    mergeSort_eq_sortUpTo]
  decide +kernel

end

end DesignLint
