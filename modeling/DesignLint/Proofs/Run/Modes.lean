import DesignLint.Proofs.Rule.Sample
import DesignLint.Proofs.Run.Resolution
import DesignLint.Run.Execute

/-!
# The modes of a run

The modes deal with a file alike (`modes_agree`): what a run that fixes says of it is what a scan
says, with the planned replacements entered as applied (`Finding.realized`), or with the findings
demoted whose replacements could not be written. A dry run says what a scan says, and shows the text
that would be written.
-/

namespace DesignLint

/-- A finding whose planned replacement the file shows. -/
def Finding.realized : Finding → Finding :=
  Finding.resolve fun x => if x.confidence = .autoFixable then { x with applied := x.planned } else x

/-- The finding with an index, demoted if its replacement is one that could not be written. -/
def Finding.demoteIn (applied : List Nat) (why : String) (i : Nat) (f : Finding) : Finding :=
  if i ∈ applied then f.resolve fun _ => .demote (.writeFailed why) else f

/-- What the modes of a run make of a file of which a scan says `scan`, where `w` is what has been
rewritten. -/
structure Source.ModesAgree (g : Registry) (file : Source) (scan : FileResult) (w : Rewriting) :
    Prop where
  /-- A scan leaves every tree as it is, and shows nothing. -/
  scan_eq : ∀ t path, visitSource g .scan t path file = (t, .done scan none)
  unwritten : scan.written = false ∧ scan.hashAfter = scan.hashBefore
  /-- In a scan nothing is applied; the findings that have been rewritten are those that can be fixed,
  and they have a plan and have not failed. -/
  resolved : ∀ i f, scan.findings[i]? = some f → ∃ x, f.resolution = some x ∧ x.applied = none ∧
    (x.confidence = .autoFixable ↔ i ∈ w.applied.map Prod.fst) ∧
    (x.confidence = .autoFixable → x.planned.isSome ∧ x.failed = false)
  /-- A dry run says the same, and shows the rewritten text if it differs. -/
  dryRun_eq : ∀ t path, visitSource g .dryRun t path file =
    (t, .done scan (if w.text = file.text then none else some ⟨file.path, file.text, w.text⟩))
  /-- If the text does not differ, nothing is written. -/
  fix_unchanged : w.text = file.text → ∀ t path, visitSource g .fix t path file =
    (t, .done { scan with findings := scan.findings.map Finding.realized } none)
  /-- If it differs, it is written. -/
  fix_written : w.text ≠ file.text → ∀ t path after, t.writeFixed path w.text = (after, .written) →
    visitSource g .fix t path file = (after, .done
      { scan with
        findings := scan.findings.map Finding.realized
        hashAfter := w.text.digest
        written := true } none)
  /-- If it cannot be written, only the findings that have been rewritten are demoted. -/
  fix_failed : w.text ≠ file.text → ∀ t path after why,
    t.writeFixed path w.text = (after, .failed why) → visitSource g .fix t path file = (after, .done
      { scan with findings := scan.findings.mapIdx (Finding.demoteIn (w.applied.map Prod.fst) why) } none)

section

variable {c : Config} {g : Registry} {file : Source} {mode : RunMode} {write : WriteOutcome}

/-! ### Resolutions after a run -/

theorem Resolution.Reviewed.elim_apply {t? : Option Text} {x : Resolution} (h : x.Reviewed t?) :
    t?.elim id Resolution.apply x =
      if x.confidence = .autoFixable then { x with applied := x.planned } else x := by
  cases h with
  | manual why => rfl
  | planned why t => rfl
  | failed failure => rfl

theorem Resolution.Reviewed.pending {t? : Option Text} {x : Resolution} (h : x.Reviewed t?) :
    x.applied = none ∧ (x.confidence = .autoFixable ↔ t?.isSome) ∧
      (x.confidence = .autoFixable → x.planned.isSome ∧ x.failed = false) := by
  cases h with
  | manual why => simp [Resolution.manual]
  | planned why t => simp [plan, fixable]
  | failed failure => simp [demote]

/-- Unless a write fails, a run that fixes enters the planned replacements as applied. -/
theorem finalFindings_of_shown (hg : Registry.ofConfig c = .ok g)
    (hshown : (review g file).lost write = false) :
    (review g file).finalFindings .fix write = (review g file).findings.map Finding.realized := by
  have hconclude : (review g file).conclude .fix write = Resolution.apply := by
    funext t x
    unfold Review.lost at hshown
    unfold Review.conclude
    cases hc : (review g file).changed <;> cases write <;> simp_all [RunMode.writes]
  refine List.ext_getElem? fun i => ?_
  rw [Review.getElem?_finalFindings, List.getElem?_map, hconclude]
  refine Option.map_congr fun f hf => ?_
  obtain ⟨x, hx, hreviewed⟩ := exists_reviewed hg hf
  simp only [Finding.realized, Finding.resolve, hx, Option.map_some, hreviewed.elim_apply]

/-- If the write fails, a run that fixes demotes the findings with a replacement to be applied. -/
theorem finalFindings_of_failed {why : String} (hchanged : (review g file).changed = true) :
    (review g file).finalFindings .fix (.failed why) =
      (review g file).findings.mapIdx (Finding.demoteIn ((review g file).applied.map Prod.fst) why) := by
  have hconclude : ∀ t, (review g file).conclude .fix (.failed why) t =
      fun _ => .demote (.writeFailed why) := by
    intro t
    funext x
    simp [Review.conclude, hchanged, RunMode.writes]
  refine List.ext_getElem? fun i => ?_
  rw [Review.getElem?_finalFindings, List.getElem?_mapIdx]
  refine congrArg (Option.map · _) (funext fun f => ?_)
  unfold Finding.demoteIn
  split_ifs with hi
  · obtain ⟨t, ht⟩ := exists_lookup_of_mem hi
    rw [ht, Option.elim_some, hconclude]
  · rw [lookup_eq_none_iff.mpr hi]
    exact f.resolve_id

/-! ### The modes -/

theorem changed_review : (review g file).changed = true ↔
    (rewrite g file.text (g.triaged file)).text ≠ file.text := by
  rw [Review.changed, bne_iff_ne]
  rfl

theorem visitSource_fix (hwants : (review g file).wantsWrite .fix = true) {t after : FileTree}
    {path : String} (hwrite : t.writeFixed path (rewrite g file.text (g.triaged file)).text =
      (after, write)) :
    visitSource g .fix t path file = (after, .done ((review g file).result .fix write) none) := by
  have hwrite : t.writeFixed path (review g file).text = (after, write) := hwrite
  rw [visitSource, if_pos hwants, hwrite]
  rfl

/-- **Scan, dry run and fix agree on every file.** -/
theorem modes_agree (hg : Registry.ofConfig c = .ok g) (file : Source) :
    ∃ scan, file.ModesAgree g scan (rewrite g file.text (g.triaged file)) := by
  have hshown : (review g file).lost .written = false := by simp [Review.lost]
  refine ⟨(review g file).result .scan .written, ?_⟩
  constructor
  case scan_eq => exact fun t path => rfl
  case unwritten => exact ⟨rfl, rfl⟩
  case resolved =>
    intro i f hf
    obtain ⟨x, hx, hreviewed⟩ := exists_reviewed hg hf
    obtain ⟨happlied, hiff, hplan⟩ := hreviewed.pending
    refine ⟨x, hx, happlied, hiff.trans ?_, hplan⟩
    rw [Option.isSome_iff_ne_none, ne_eq, lookup_eq_none_iff, not_not, review_applied]
  case dryRun_eq =>
    intro t path
    have hpreview : ((review g file).preview? .dryRun).map (Preview.mk file.path file.text) =
        if (rewrite g file.text (g.triaged file)).text = file.text then none
        else some ⟨file.path, file.text, (rewrite g file.text (g.triaged file)).text⟩ := by
      simp only [Review.preview?, beq_self_eq_true, Bool.true_and, changed_review, ite_not]
      split_ifs <;> rfl
    rw [← hpreview]
    rfl
  case fix_unchanged =>
    intro htext t path
    have hwants : (review g file).wantsWrite .fix = false := by
      rw [Review.wantsWrite, Bool.and_eq_false_iff, ← Bool.not_eq_true (review g file).changed,
        changed_review, not_not]
      exact Or.inr htext
    rw [visitSource, hwants, if_neg Bool.false_ne_true, Review.result,
      finalFindings_of_shown hg hshown, hwants]
    rfl
  case fix_written =>
    intro htext t path after hwrite
    have hwants : (review g file).wantsWrite .fix = true := changed_review.mpr htext
    rw [visitSource_fix hwants hwrite, Review.result, finalFindings_of_shown hg hshown, hwants]
    rfl
  case fix_failed =>
    intro htext t path after why hwrite
    have hwants : (review g file).wantsWrite .fix = true := changed_review.mpr htext
    rw [visitSource_fix hwants hwrite, Review.result,
      finalFindings_of_failed (changed_review.mpr htext), hwants]
    rfl

/-- A dry run shows the component that a run that fixes writes. -/
theorem modes_agree_button :
    let g := Registry.ofRules [.ofTag "button" (.substitution (some "Button") [])]
    let file := Source.ofText "a.tsx" "<button/>".toList
    let w := rewrite g file.text (g.triaged file)
    w.text = "<Button/>".toList ∧ ∃ scan, file.ModesAgree g scan w ∧
      ∀ t path, visitSource g .dryRun t path file =
        (t, .done scan (some ⟨"a.tsx", file.text, "<Button/>".toList⟩)) := by
  intro g file w
  have hg : Registry.ofConfig
      (.ofRules [.ofTag "button" (.substitution (some "Button") [])]) = .ok g := rfl
  have htext : w.text = "<Button/>".toList := by
    simp only [w, rewrite, acceptFixes, fixableFindings, Registry.triaged, Registry.findings, planFix,
      planElement, spliceWithin, splice, mergeSort_eq_sortUpTo]
    decide +kernel
  obtain ⟨scan, hscan⟩ := modes_agree hg file
  have hne : w.text ≠ file.text := by
    rw [htext]
    decide
  refine ⟨htext, scan, hscan, fun t path => ?_⟩
  rw [hscan.dryRun_eq, if_neg hne, htext]
  rfl

end

end DesignLint
