import DesignLint.Proofs.Report.Aggregate
import DesignLint.Proofs.Report.Groups
import DesignLint.Report.Markdown

/-!
# The outline of a report

The two sections for findings of a report in Markdown are the texts of an `Outline`: numbers, and
the findings under headings (`Report.markdown_eq`). If a report is made of a run, the outline lists
its findings (`Outline.Lists`): each of them once, below the headings that it belongs to, and under
the number of them (`Report.lists_outline`).
-/

namespace DesignLint

/-! ### Outlines -/

/-- Findings for a person under a heading for their severity and rule, which shows a number. -/
structure RuleGroup where
  severity : Severity
  rule : String
  count : Nat
  items : List Finding

/-- What stands in the two sections for findings: a number, and what stands under the heading of
each category. -/
structure Outline where
  fixCount : Nat
  fixes : List (Category × List Finding)
  manualCount : Nat
  manual : List (Category × List RuleGroup)

/-- A group with its heading as a key. -/
def RuleGroup.entry (x : RuleGroup) : (Severity × String) × List Finding :=
  ((x.severity, x.rule), x.items)

/-- What the rule of a group says about its findings. -/
def RuleGroup.advice (g : Registry) (x : RuleGroup) : String :=
  let language := (x.items.head?.map fun f => fenceLanguage f.path).getD "tsx"
  ((g.rule? x.rule).map (·.advice language)).getD ""

/-- The text of a heading. -/
def RuleGroup.heading (x : RuleGroup) : String :=
  "\n#### " ++ x.rule ++ " (" ++ x.severity.name ++ ", " ++ toString x.count ++ ")\n\n"

/-- The text of a heading, of what its rule says about findings, and of the items. -/
def RuleGroup.text (g : Registry) (x : RuleGroup) : String :=
  x.heading ++ x.advice g ++ String.join (x.items.map Finding.manualItem)

namespace Outline

/-- The text of the section for fixes. -/
def fixText (o : Outline) (mode : RunMode) : String :=
  "\n## " ++ mode.fixHeading ++ " (" ++ toString o.fixCount ++ ")\n" ++ noneIfEmpty o.fixes ++
    String.join (o.fixes.map fun c =>
      "\n### " ++ c.1.title ++ "\n\n" ++ String.join (c.2.map Finding.fixItem))

/-- The text of the section for a person. -/
def manualText (o : Outline) (g : Registry) : String :=
  "\n## Manual Review Needed (" ++ toString o.manualCount ++ ")\n" ++ noneIfEmpty o.manual ++
    String.join (o.manual.map fun c =>
      "\n### " ++ c.1.title ++ "\n" ++ String.join (c.2.map (RuleGroup.text g)))

/-- The fixes that are listed. -/
def fixItems (o : Outline) : List Finding := o.fixes.flatMap (·.2)

/-- The findings for a person that are listed. -/
def manualItems (o : Outline) : List Finding := o.manual.flatMap fun c => c.2.flatMap (·.items)

/-- An outline that lists the findings of a report. -/
structure Lists (o : Outline) (r : Report) : Prop where
  /-- Each fix is listed once, under its category. -/
  fixes : Shares Finding.category Category.Before o.fixes
    (r.findings.filter fun f => f.confidence = some .autoFixable)
  fixCount : o.fixCount = o.fixItems.length
  /-- Each finding for a person is listed once. -/
  manual : o.manualItems.Perm (r.findings.filter fun f => f.confidence = some .manualReview)
  categories : o.manual.Pairwise fun c d => c.1.Before d.1
  /-- Under the heading of a category stand its findings, each under its severity and rule. -/
  rules : ∀ c ∈ o.manual, c.2 ≠ [] ∧ Shares Finding.heading HeadingBefore
    (c.2.map RuleGroup.entry)
    (r.findings.filter fun f => f.confidence = some .manualReview ∧ f.category = c.1)
  counts : ∀ c ∈ o.manual, ∀ x ∈ c.2, x.count = x.items.length
  manualCount : o.manualCount = o.manualItems.length

end Outline

/-! ### The outline of a report -/

/-- The group of a heading. -/
def RuleGroup.ofEntry (k : (Severity × String) × List Finding) : RuleGroup :=
  ⟨k.1.1, k.1.2, k.2.length, k.2⟩

theorem map_entry_map_ofEntry (groups : List ((Severity × String) × List Finding)) :
    (groups.map RuleGroup.ofEntry).map RuleGroup.entry = groups := by
  rw [List.map_map]
  exact List.map_id groups

namespace Report

/-- The outline that is written of a report. -/
def outline (r : Report) : Outline where
  fixCount := r.autoFixed
  fixes := byCategory (r.withConfidence .autoFixable)
  manualCount := r.manualReview
  manual := (byCategory (r.withConfidence .manualReview)).map fun c =>
    (c.1, (byRule c.2).map RuleGroup.ofEntry)

theorem fixSections_eq (r : Report) : r.fixSections = r.outline.fixText r.mode := rfl

theorem manualSections_eq (r : Report) (g : Registry) :
    r.manualSections g = r.outline.manualText g := by
  have hnone : noneIfEmpty r.outline.manual =
      noneIfEmpty (byCategory (r.withConfidence .manualReview)) := by
    unfold noneIfEmpty outline
    rw [List.isEmpty_map]
  have hsections : (r.outline.manual.map fun c =>
      "\n### " ++ c.1.title ++ "\n" ++ String.join (c.2.map (RuleGroup.text g))) =
      (byCategory (r.withConfidence .manualReview)).map fun c => manualSection g c.1 c.2 := by
    unfold outline manualSection
    rw [List.map_map]
    refine List.map_congr_left fun c _ => ?_
    rw [Function.comp_apply, List.map_map]
    rfl
  unfold manualSections Outline.manualText
  rw [hnone, hsections]
  rfl

theorem markdown_eq (r : Report) (vs : List Violation) (g : Registry) :
    r.markdown vs g = "# Design System Compliance Report\n\n" ++ r.totalsTable ++
      r.breakdownTable ++ r.outline.fixText r.mode ++ r.outline.manualText g ++ r.skippedSection ++
      gateSection vs := by
  unfold markdown
  rw [fixSections_eq, manualSections_eq]

theorem withConfidence_eq (r : Report) (k : Confidence) :
    r.withConfidence k = r.findings.filter fun f => f.confidence = some k :=
  List.filter_congr fun f _ => by rw [Bool.eq_iff_iff, beq_iff_eq, decide_eq_true_iff]

section

variable {mode : RunMode} {n : Nat} {files : List FileResult} {skipped : List Skipped} {r : Report}

theorem counts_of_aggregate (h : aggregate mode n files skipped = .ok r) :
    r.autoFixed = (r.withConfidence .autoFixable).length ∧
      r.manualReview = (r.withConfidence .manualReview).length := by
  have hcount : ∀ k, (r.withConfidence k).length = r.findings.countP (·.confidence == some k) :=
    fun k => List.countP_eq_length_filter.symm
  rw [hcount, hcount, eq_tally_of_aggregate h, findings_tally]
  exact ⟨rfl, rfl⟩

theorem perm_manualItems (r : Report) :
    r.outline.manualItems.Perm (r.withConfidence .manualReview) := by
  have hitems : r.outline.manualItems =
      (byCategory (r.withConfidence .manualReview)).flatMap fun c =>
        (byRule c.2).flatMap (·.2) := by
    simp only [Outline.manualItems, outline, List.flatMap_map]
    rfl
  rw [hitems]
  exact (List.Perm.flatMap_left _ fun c _ => (shares_byRule c.2).once).trans
    (shares_byCategory _).once

/-- **The outline of a report lists its findings.** -/
theorem lists_outline (h : aggregate mode n files skipped = .ok r) : r.outline.Lists r where
  fixes := by
    rw [← withConfidence_eq]
    exact shares_byCategory _
  fixCount := (counts_of_aggregate h).1.trans (shares_byCategory _).once.length_eq.symm
  manual := by
    rw [← withConfidence_eq]
    exact perm_manualItems r
  categories := List.pairwise_map.mpr (shares_byCategory _).increasing
  rules := by
    intro c hc
    obtain ⟨k, hk, rfl⟩ := List.mem_map.mp hc
    have hshares := shares_byCategory (r.withConfidence .manualReview)
    have hfilter : k.2 = r.findings.filter fun f =>
        f.confidence = some .manualReview ∧ f.category = k.1 := by
      rw [hshares.eq_filter k hk, withConfidence_eq, List.filter_filter]
      refine List.filter_congr fun f _ => ?_
      rw [Bool.and_comm, Bool.decide_and]
    refine ⟨?_, ?_⟩
    · simpa using (shares_byRule k.2).groups_ne_nil (hshares.ne_nil k hk)
    · rw [← hfilter, map_entry_map_ofEntry]
      exact shares_byRule k.2
  counts := by
    intro c hc x hx
    obtain ⟨k, -, rfl⟩ := List.mem_map.mp hc
    obtain ⟨y, -, rfl⟩ := List.mem_map.mp hx
    rfl
  manualCount := (counts_of_aggregate h).2.trans (perm_manualItems r).length_eq.symm

end

end Report

end DesignLint
