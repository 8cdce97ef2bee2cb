import DesignLint.Proofs.Report.Aggregate
import DesignLint.Proofs.Sort

/-!
# What a report accounts for

Aggregation sorts the results of single files, counts, and then leaves out the files of which there
is nothing to tell. The counts do not depend on the order (`bucketsOf_perm`), and the check that the
report has to pass holds for each finding (`flaw?_eq_none_of_verify`), so only findings that a
person has to look at can have failed. This gives what a report says of the results that it was made
of (`Report.Accounts`, `Report.accounts_of_aggregate`), with scores in any type of numbers; the
exact score of its counts is the share of findings that are gone.
-/

namespace DesignLint

/-! ### Findings that were counted -/

section

variable {fs : List Finding} {mode : RunMode} {f : Finding}

/-- Every finding is open in a run that writes nothing; else those are that a person has to look
at. -/
theorem countP_isOpen (h : ∀ f ∈ fs, f.resolution.isSome) : fs.countP (·.isOpen mode) =
    if mode = .fix then fs.countP (·.confidence == some .manualReview) else fs.length := by
  split_ifs with hmode
  · refine List.countP_congr fun f hf => ?_
    obtain ⟨k, hk⟩ := confidence_of_isSome (h f hf)
    rw [Finding.isOpen, hk, hmode]
    cases k <;> decide
  · refine List.countP_eq_length.mpr fun f _ => ?_
    have hwrites : mode.writes = false := by rw [RunMode.writes, beq_eq_false_iff_ne]; exact hmode
    rw [Finding.isOpen, hwrites, Bool.false_and, Bool.not_false]

/-- A finding without flaw of which a fix has failed is left to a person. -/
theorem confidence_of_failed {σ : Type} (h : (f.flaw? mode : Option (ReportFlaw σ)) = none)
    (hfailed : f.resolution.any (·.failed)) : f.confidence = some .manualReview := by
  obtain ⟨x, hx, hfailed⟩ := (Option.any_eq_true _ _).mp hfailed
  rw [Finding.flaw?, hx] at h
  have hnone : x.inconsistency? mode = none := Option.map_eq_none_iff.mp h
  rw [Finding.confidence, hx, Option.map_some]
  cases hk : x.confidence with
  | manualReview => rfl
  | autoFixable => simp [Resolution.inconsistency?, hk, hfailed] at hnone

end

/-! ### Reports -/

namespace Report

/-- A report that has passed its check has no finding with a flaw. -/
theorem flaw?_eq_none_of_verify {σ : Type} [OfNat σ 0] [OfNat σ 1] [LE σ] [DecidableLE σ]
    {r : Report σ} (h : r.verify = .ok ()) :
    ∀ f ∈ r.findings, (f.flaw? r.mode : Option (ReportFlaw σ)) = none := by
  unfold verify at h
  simp only at h
  split at h
  · cases h
  · split at h
    · cases h
    · cases hflaw : r.findings.findSome? fun f => (f.flaw? r.mode : Option (ReportFlaw σ)) with
      | none => exact List.findSome?_eq_none_iff.mp hflaw
      | some flaw =>
        rw [hflaw] at h
        cases h

variable {σ : Type} [OfCount σ] [OfNat σ 1] [Sub σ] [Div σ] {mode : RunMode} {n : Nat}
  {files : List FileResult} {skipped : List Skipped} {r : Report σ}

/-- What a report says of the results of single files and of the files that were left out. -/
structure Accounts (m : RunMode) (n : Nat) (results : List FileResult) (omitted : List Skipped)
    (r : Report σ) : Prop where
  mode : r.mode = m
  filesScanned : r.filesScanned = n
  /-- The files with findings and the files that were written, sorted. -/
  files : r.files.Perm (results.filter fun f => !f.findings.isEmpty || f.written)
  files_sorted : r.files.Pairwise (·.path ≤ ·.path)
  skipped : r.skipped.Perm omitted
  skipped_sorted : r.skipped.Pairwise (·.path ≤ ·.path)
  filesModified : r.filesModified = results.countP (·.written)
  /-- The findings of all files are counted, also those of a file that the report leaves out. -/
  total : r.total = (results.flatMap (·.findings)).length
  autoFixed : r.autoFixed =
    (results.flatMap (·.findings)).countP (·.confidence == some .autoFixable)
  manualReview : r.manualReview =
    (results.flatMap (·.findings)).countP (·.confidence == some .manualReview)
  fixFailed : r.fixFailed =
    (results.flatMap (·.findings)).countP fun f => f.resolution.any (·.failed)
  failed_le : r.fixFailed ≤ r.manualReview
  /-- The buckets that are not empty, each with the number of its findings. -/
  mem_breakdown : ∀ b, b ∈ r.breakdown ↔ 0 < b.count ∧ b.count =
    (results.flatMap (·.findings)).countP (·.isIn (b.category, b.severity, b.confidence))
  breakdown_increasing : r.breakdown.Pairwise fun a b => a.rank < b.rank
  openCount : r.openCount = if m = .fix then r.manualReview else r.total
  score : r.score = complianceScore r.openCount r.total
  /-- The exact score. -/
  score_eq : (complianceScore r.openCount r.total : ℚ) =
    if r.total = 0 then 1 else 1 - (r.openCount : ℚ) / r.total
  score_mem : 0 ≤ (complianceScore r.openCount r.total : ℚ) ∧
    (complianceScore r.openCount r.total : ℚ) ≤ 1

variable [OfNat σ 0] [LE σ] [DecidableLE σ]

theorem verify_of_aggregate (h : aggregate mode n files skipped = .ok r) : r.verify = .ok () := by
  rw [aggregate_eq] at h
  split at h
  · cases h
  · simp only at h
    split at h
    · next hv =>
      cases h
      exact hv
    · cases h

theorem flaw?_eq_none_of_aggregate (h : aggregate mode n files skipped = .ok r) :
    ∀ f ∈ files.flatMap (·.findings), (f.flaw? mode : Option (ReportFlaw σ)) = none := by
  have hflaw := flaw?_eq_none_of_verify (verify_of_aggregate h)
  rw [eq_tally_of_aggregate h, findings_tally] at hflaw
  intro f hf
  exact hflaw f (((List.mergeSort_perm files _).flatMap_right _).mem_iff.mpr hf)

/-- Without a resolution for each finding there is no report. -/
theorem exists_unresolved (h : ∃ f ∈ files.flatMap (·.findings), f.resolution = none) :
    ∃ f ∈ files.flatMap (·.findings), f.resolution = none ∧
      (aggregate mode n files skipped : Except (ReportFlaw σ) (Report σ)) = .error f.unresolved := by
  obtain ⟨f, hf, hnone⟩ := h
  have hperm := (List.mergeSort_perm files fun a b => a.path ≤ b.path).flatMap_right (·.findings)
  have hfound : (((files.mergeSort fun a b => a.path ≤ b.path).flatMap (·.findings)).find?
      (·.resolution.isNone)).isSome :=
    List.find?_isSome.mpr ⟨f, hperm.mem_iff.mpr hf, by rw [hnone]; rfl⟩
  obtain ⟨g, hg⟩ := Option.isSome_iff_exists.mp hfound
  have hgnone : g.resolution.isNone :=
    @List.find?_some _ (fun f : Finding => f.resolution.isNone) _ _ hg
  refine ⟨g, hperm.mem_iff.mp (List.mem_of_find?_eq_some hg),
    Option.isNone_iff_eq_none.mp hgnone, ?_⟩
  simp only [aggregate_eq, hg]

/-- **A report accounts for the results that it was made of**, in whatever order they come; and if
a finding has no resolution, there is no report, but a message about such a finding. -/
theorem accounts_of_aggregate (mode : RunMode) (n : Nat) (files : List FileResult)
    (skipped : List Skipped) :
    (∀ r : Report σ, aggregate mode n files skipped = .ok r →
      Accounts mode n files skipped r) ∧
    ((∃ f ∈ files.flatMap (·.findings), f.resolution = none) →
      ∃ f ∈ files.flatMap (·.findings), f.resolution = none ∧
        (aggregate mode n files skipped : Except (ReportFlaw σ) (Report σ)) =
          .error f.unresolved) := by
  refine ⟨fun r h => ?_, exists_unresolved⟩
  have hflaw := flaw?_eq_none_of_aggregate h
  have hsome : ∀ f ∈ files.flatMap (·.findings), f.resolution.isSome := fun f hf =>
    Finding.isSome_of_flaw? (hflaw f hf)
  have hfiles := List.mergeSort_perm files fun a b => a.path ≤ b.path
  have hfs := hfiles.flatMap_right (·.findings)
  have hopen := @countP_isOpen _ mode hsome
  rw [eq_tally_of_aggregate h]
  refine
    { mode := rfl
      filesScanned := rfl
      files := hfiles.filter _
      files_sorted := (pairwise_mergeSort_of (r := fun a b : FileResult => a.path ≤ b.path)
        (fun _ _ _ => String.le_trans) (fun _ _ => String.le_total _ _) files).filter _
      skipped := List.mergeSort_perm skipped _
      skipped_sorted := pairwise_mergeSort_of (r := fun a b : Skipped => a.path ≤ b.path)
        (fun _ _ _ => String.le_trans) (fun _ _ => String.le_total _ _) skipped
      filesModified := hfiles.countP_eq _
      total := hfs.length_eq
      autoFixed := hfs.countP_eq _
      manualReview := hfs.countP_eq _
      fixFailed := hfs.countP_eq _
      failed_le := List.countP_mono_left fun f hf hfailed => ?_
      mem_breakdown := fun b => ?_
      breakdown_increasing := bucketsOf_increasing _
      openCount := ?_
      score := rfl
      score_eq := ?_
      score_mem := complianceScore_mem List.countP_le_length }
  · rw [confidence_of_failed (hflaw f (hfs.mem_iff.mp hf)) hfailed]
    rfl
  · rw [← mem_bucketsOf, ← bucketsOf_perm hfs]
    rfl
  · simp only [tally, hfs.countP_eq, hfs.length_eq]
    exact hopen
  · simp only [complianceScore, beq_iff_eq]
    rfl

/-- One of three files was fixed, one is left to a person, and one has no findings; a finding that
nobody has looked at is reported. -/
theorem accounts_of_aggregate_color :
    let color (x : Option Resolution) : Finding :=
      ⟨"a.css", "color", .colorToken, .high, 1, 1, 10, "", [], some "#fff", x,
        .value ⟨⟨9, 13⟩, "#fff".toList, "color".toList, .declaration⟩⟩
    let fixed := color (some ⟨.autoFixable, "literal", some "var(--w)", some "var(--w)", false⟩)
    let failed := color (some ⟨.manualReview, "no token", none, none, true⟩)
    let files : List FileResult := [⟨"c.css", [], "x", "x", false⟩,
      ⟨"b.css", [failed], "y", "y", false⟩, ⟨"a.css", [fixed], "z", "w", true⟩]
    (∃ r : Report ℚ, (aggregate .fix 3 files [] : Except (ReportFlaw ℚ) (Report ℚ)) = .ok r ∧
      Accounts .fix 3 files [] r ∧ r.files.map (·.path) = ["a.css", "b.css"] ∧
      r.fixFailed = 1 ∧ r.score = 1 / 2) ∧
    (aggregate .fix 1 [⟨"a.css", [color none], "x", "x", false⟩] [] :
      Except (ReportFlaw ℚ) (Report ℚ)) = .error (.unresolved "a.css" "color" 1) := by
  intro color fixed failed files
  have hok := @aggregate_eq_ok .fix 3 files [] (by decide +kernel)
  refine ⟨⟨_, hok, (accounts_of_aggregate .fix 3 files []).1 _ hok, ?_⟩, ?_⟩
  · simp only [tally, complianceScore, mergeSort_eq_sortUpTo]
    decide +kernel
  · obtain ⟨f, hf, -, h⟩ := (accounts_of_aggregate (σ := ℚ) .fix 1
      [⟨"a.css", [color none], "x", "x", false⟩] []).2 ⟨color none, by simp, rfl⟩
    obtain rfl : f = color none := by simpa using hf
    exact h

end Report

end DesignLint
