import DesignLint.Proofs.Report.Items
import DesignLint.Proofs.Report.Outline

/-!
# What a report in Markdown lists

The items in the text of an outline are those of its findings, in the order of the outline, and what
the advice of a rule has of its own (`Outline.Itemized`). Apart from the sections for findings, only
the files that were left out and the verdict of the gate are listed (`Report.listItems_markdown`).

So a report in Markdown lists each finding (`Report.markdown_lists`). It lists a fix more than once
if a later line of the fix starts an item: a fix is printed with its line breaks, in contrast to the
snippet of a finding for a person (`Report.exists_listed_thrice`).
-/

namespace DesignLint

/-! ### Sections -/

theorem prints_noneIfEmpty {α : Type} (xs : List α) : Prints (noneIfEmpty xs) [] := by
  unfold noneIfEmpty
  split_ifs
  · exact ⟨Or.inr ⟨"\nNone.", rfl⟩, rfl⟩
  · exact ⟨Or.inl rfl, rfl⟩

theorem endsLine_getD {α : Type} (x : Option α) {f : α → String} (h : ∀ a, EndsLine (f a)) :
    EndsLine ((x.map f).getD "") := by
  cases x with
  | none => exact Or.inl rfl
  | some a => exact h a

theorem prints_sectionHeading {s : String} (h : Visible s) (n : Nat) :
    Prints ("\n## " ++ s ++ " (" ++ toString n ++ ")\n") [] := by
  have hs : '\n' ∉ (s ++ " (" ++ toString n).toList :=
    ((h.append (.of_all rfl)).append (visible_toString n)).not_mem (by decide)
  have hheading : Prints ("\n## " ++ (s ++ " (" ++ toString n) ++ ")\n") [] :=
    .heading ⟨"# ", rfl, by decide⟩ hs ⟨")", rfl, by decide⟩
  simpa only [String.append_assoc] using hheading

theorem Finding.prints_fixItem (f : Finding) : Prints f.fixItem (listItems f.fixItem) :=
  ⟨f.endsLine_fixItem, rfl⟩

theorem Finding.prints_manualItem (f : Finding) : Prints f.manualItem (listItems f.manualItem) :=
  ⟨f.endsLine_manualItem, rfl⟩

theorem prints_fixSection (c : Category) (fs : List Finding) :
    Prints (fixSection c fs) (fs.flatMap fun f => listItems f.fixItem) := by
  refine .behind ?_ (.join fun f _ => f.prints_fixItem)
  cases c <;> exact ⟨.append_left _ ⟨"\n", rfl⟩, rfl⟩

theorem Rule.endsLine_advice (r : Rule) (language : String) : EndsLine (r.advice language) := by
  have hfenced : ∀ code, EndsLine (fenced language code) :=
    fun _ => .append_left _ ⟨"\n\x60\x60\x60\n", rfl⟩
  have hmessage := endsLine_getD r.message fun t => .append_left t ⟨"\n", rfl⟩
  have hremediation := endsLine_getD r.remediation fun t =>
    EndsLine.append_left ("**How to fix:** " ++ t) ⟨"\n", rfl⟩
  refine (hmessage.append hremediation).append (endsLine_getD r.sample fun s => ?_)
  have hbefore : EndsLine "Before:\n\n" := Or.inr ⟨"Before:\n", rfl⟩
  have hafter : EndsLine "After:\n\n" := Or.inr ⟨"After:\n", rfl⟩
  exact ((hbefore.append (hfenced _)).append hafter).append (hfenced _)

namespace RuleGroup

/-- **The items under a heading**: what starts an item in the advice of the rule, and behind that
those of the findings. -/
theorem prints_text (g : Registry) (x : RuleGroup) : Prints (x.text g)
    (listItems (x.heading ++ x.advice g) ++ x.items.flatMap fun f => listItems f.manualItem) := by
  have hheading : EndsLine x.heading := .append_left _ ⟨")\n", rfl⟩
  have hadvice : EndsLine (x.advice g) := endsLine_getD _ fun r => r.endsLine_advice _
  exact .append ⟨hheading.append hadvice, rfl⟩ (.join fun f _ => f.prints_manualItem)

/-- Unless the rule has a line break in its name, its heading is no item. -/
theorem listItems_heading {x : RuleGroup} (h : '\n' ∉ x.rule.toList) (g : Registry) :
    listItems (x.heading ++ x.advice g) = listItems (x.advice g) := by
  let rest := " (" ++ x.severity.name ++ ", " ++ toString x.count
  have hrest : Visible rest :=
    (((Visible.of_all rfl).append x.severity.visible_name).append (.of_all rfl)).append
      (visible_toString _)
  have hs : '\n' ∉ (x.rule ++ rest).toList := by
    rw [String.toList_append, List.mem_append, not_or]
    exact ⟨h, hrest.not_mem (by decide)⟩
  have hprints : Prints ("\n#### " ++ (x.rule ++ rest) ++ ")\n" ++ "\n") [] :=
    .behind (.heading ⟨"### ", rfl, by decide⟩ hs ⟨")", rfl, by decide⟩) ⟨Or.inr ⟨"", rfl⟩, rfl⟩
  have heq : x.heading = "\n#### " ++ (x.rule ++ rest) ++ ")\n" ++ "\n" := by
    have hend : ")\n\n" = ")\n" ++ "\n" := rfl
    rw [heading, hend]
    simp only [rest, String.append_assoc]
  rw [heq, listItems_append hprints.endsLine, hprints.eq, List.nil_append]

end RuleGroup

namespace Outline

variable {o : Outline} {r : Report}

theorem prints_fixText (o : Outline) (mode : RunMode) :
    Prints (o.fixText mode) (o.fixItems.flatMap fun f => listItems f.fixItem) := by
  unfold fixText fixItems
  rw [List.flatMap_assoc]
  exact ((prints_sectionHeading mode.visible_fixHeading _).behind (prints_noneIfEmpty _)).behind
    (.join fun c _ => prints_fixSection c.1 c.2)

theorem prints_manualText (o : Outline) (g : Registry) : Prints (o.manualText g)
    (o.manual.flatMap fun c => c.2.flatMap fun x => listItems (x.text g)) := by
  have hheading : Prints ("\n## Manual Review Needed (" ++ toString o.manualCount ++ ")\n") [] :=
    prints_sectionHeading (s := "Manual Review Needed") (.of_all rfl) _
  refine (hheading.behind (prints_noneIfEmpty _)).behind (.join fun c _ => ?_)
  refine .behind ?_ (.join fun x _ => ⟨(x.prints_text g).endsLine, rfl⟩)
  cases c.1 <;> exact ⟨.append_left _ ⟨"", rfl⟩, rfl⟩

/-! ### Items of an outline -/

/-- What the text of an outline lists. -/
structure Itemized (o : Outline) (mode : RunMode) (g : Registry) : Prop where
  /-- The section for fixes lists the fixes and nothing else, those of a category under it. -/
  fixes : listItems (o.fixText mode) = o.fixItems.flatMap fun f => listItems f.fixItem
  fixSections : ∀ c ∈ o.fixes,
    listItems (fixSection c.1 c.2) = c.2.flatMap fun f => listItems f.fixItem
  /-- A fix is listed with its place, and again with each later line that starts an item. -/
  fix : ∀ f ∈ o.fixItems, '\n' ∉ f.location.toList → '\n' ∉ f.rule.toList →
    listItems f.fixItem = (f.fixLead.toList ++ Text.firstLine (f.fixText.push '\x60').toList) ::
        laterItems (f.fixText.push '\x60') ∧
      (laterItems (f.fixText.push '\x60') = [] ↔ ¬ ['\n', '-', ' '] <:+: f.fixText.toList)
  fixCount : (∀ f ∈ o.fixItems, f.FixOnce) → (listItems (o.fixText mode)).length = o.fixCount
  /-- The section for a person lists, under each heading, the advice of the rule as far as it is a
  list, and the findings. -/
  manual : listItems (o.manualText g) =
    o.manual.flatMap fun c => c.2.flatMap fun x => listItems (x.text g)
  groups : ∀ c ∈ o.manual, ∀ x ∈ c.2, listItems (x.text g) =
    listItems (x.heading ++ x.advice g) ++ x.items.flatMap fun f => listItems f.manualItem
  headings : ∀ c ∈ o.manual, ∀ x ∈ c.2, '\n' ∉ x.rule.toList →
    listItems (x.heading ++ x.advice g) = listItems (x.advice g)
  /-- A finding is listed with its place, and again with each later line of its rationale that
  starts an item. -/
  item : ∀ f ∈ o.manualItems, '\n' ∉ f.location.toList → '\n' ∉ f.snippet.toList →
    listItems f.manualItem =
        (f.manualLead.toList ++ Text.firstLine f.rationale.toList) :: laterItems f.rationale ∧
      (laterItems f.rationale = [] ↔ ¬ ['\n', '-', ' '] <:+: f.rationale.toList)
  groupCounts : ∀ c ∈ o.manual, ∀ x ∈ c.2, (∀ f ∈ x.items, f.ManualOnce) →
    (listItems (x.text g)).length = (listItems (x.heading ++ x.advice g)).length + x.count
  manualCount : (∀ f ∈ o.manualItems, f.ManualOnce) →
    (∀ c ∈ o.manual, ∀ x ∈ c.2, listItems (x.heading ++ x.advice g) = []) →
    (listItems (o.manualText g)).length = o.manualCount

theorem length_flatMap_of_one {α β : Type} {xs : List α} {f : α → List β}
    (h : ∀ x ∈ xs, (f x).length = 1) : (xs.flatMap f).length = xs.length := by
  rw [List.length_flatMap, List.map_congr_left h, List.map_const', List.sum_replicate_nat, mul_one]

/-- **An outline that lists the findings of a report lists them in its text.** -/
theorem Lists.itemized (h : o.Lists r) (mode : RunMode) (g : Registry) : o.Itemized mode g where
  fixes := (o.prints_fixText mode).eq
  fixSections c _ := (prints_fixSection c.1 c.2).eq
  fix f _ hplace hrule :=
    ⟨Finding.listItems_fixItem hplace hrule, f.laterItems_fixText_eq_nil_iff⟩
  fixCount hone := by
    rw [(o.prints_fixText mode).eq, length_flatMap_of_one fun f hf => (hone f hf).length_eq_one,
      h.fixCount]
  manual := (o.prints_manualText g).eq
  groups c _ x _ := (x.prints_text g).eq
  headings c _ x _ hrule := RuleGroup.listItems_heading hrule g
  item f _ hplace hsnippet := ⟨Finding.listItems_manualItem hplace hsnippet, laterItems_eq_nil_iff⟩
  groupCounts c hc x hx hone := by
    rw [(x.prints_text g).eq, List.length_append,
      length_flatMap_of_one fun f hf => (hone f hf).length_eq_one, h.counts c hc x hx]
  manualCount hone hadvice := by
    have hitems : (o.manual.flatMap fun c => c.2.flatMap fun x => listItems (x.text g)) =
        o.manualItems.flatMap fun f => listItems f.manualItem := by
      simp only [manualItems, List.flatMap_assoc]
      refine List.flatMap_congr fun c hc => List.flatMap_congr fun x hx => ?_
      rw [(x.prints_text g).eq, hadvice c hc x hx, List.nil_append]
    rw [(o.prints_manualText g).eq, hitems,
      length_flatMap_of_one fun f hf => (hone f hf).length_eq_one, h.manualCount]

end Outline

/-! ### Reports -/

namespace Report

theorem endsLine_skippedSection (r : Report) : EndsLine r.skippedSection := by
  unfold skippedSection
  split_ifs
  · exact Or.inl rfl
  · have hlines : Prints (String.join (r.skipped.map fun s =>
        "- \x60" ++ s.path ++ "\x60: " ++ s.reason.message ++ "\n")) _ :=
      .join fun s _ => ⟨.ended _, rfl⟩
    exact .append (Or.inr ⟨"\n## Skipped Files\n", rfl⟩) hlines.endsLine

/-- **The items of a report**: those of its four sections with lists. -/
theorem listItems_markdown (r : Report) (vs : List Violation) (g : Registry) :
    listItems (r.markdown vs g) = listItems (r.outline.fixText r.mode) ++
      listItems (r.outline.manualText g) ++ listItems r.skippedSection ++
      listItems (gateSection vs) := by
  have htitle : Prints "# Design System Compliance Report\n\n" [] :=
    ⟨Or.inr ⟨"# Design System Compliance Report\n", rfl⟩, rfl⟩
  have htables := (htitle.behind r.prints_totalsTable).behind r.prints_breakdownTable
  have hfindings := (htables.behind ⟨(r.outline.prints_fixText r.mode).endsLine, rfl⟩).append
    ⟨(r.outline.prints_manualText g).endsLine, rfl⟩
  have hbefore := hfindings.append ⟨r.endsLine_skippedSection, rfl⟩
  rw [markdown_eq, listItems_append hbefore.endsLine, hbefore.eq]

section

variable {mode : RunMode} {n : Nat} {files : List FileResult} {skipped : List Skipped} {r : Report}

/-- **A report in Markdown lists the findings.** Whatever run it is made of, whatever the gate says
and whatever the rules are, its sections for findings are the texts of an outline that lists them,
and in these sections their items are printed. -/
theorem markdown_lists (h : aggregate mode n files skipped = .ok r) (vs : List Violation)
    (g : Registry) :
    r.outline.Lists r ∧ r.outline.Itemized r.mode g ∧
      r.markdown vs g = "# Design System Compliance Report\n\n" ++ r.totalsTable ++
        r.breakdownTable ++ r.outline.fixText r.mode ++ r.outline.manualText g ++
        r.skippedSection ++ gateSection vs ∧
      listItems (r.markdown vs g) = listItems (r.outline.fixText r.mode) ++
        listItems (r.outline.manualText g) ++ listItems r.skippedSection ++
        listItems (gateSection vs) :=
  ⟨lists_outline h, (lists_outline h).itemized r.mode g, markdown_eq r vs g,
    listItems_markdown r vs g⟩

/-- Findings of two files stand under three headings, the most severe first. -/
theorem markdown_lists_color :
    let finding (path rule : String) (s : Severity) (x : Resolution) : Finding :=
      ⟨path, rule, .colorToken, s, 1, 1, 10, "#fff", [], some "#fff", some x,
        .value ⟨⟨9, 13⟩, "#fff".toList, "color".toList, .declaration⟩⟩
    let fix := Resolution.plan "var(--w)".toList (.fixable "literal")
    let manual := Resolution.manual "no token"
    let files : List FileResult := [
      ⟨"b.css", [finding "b.css" "ink" .high fix, finding "b.css" "ink" .high manual], "x", "x",
        false⟩,
      ⟨"a.css", [finding "a.css" "paper" .high manual, finding "a.css" "tone" .critical manual,
        finding "a.css" "ink" .high manual], "y", "y", false⟩]
    let g := Registry.ofRules [.ofColor [("#fff", "var(--w)")]]
    ∃ r : Report, aggregate .scan 2 files [] = .ok r ∧ r.outline.Lists r ∧
      r.markdown [] g = "# Design System Compliance Report\n\n" ++ r.totalsTable ++
        r.breakdownTable ++ r.outline.fixText r.mode ++ r.outline.manualText g ++
        r.skippedSection ++ gateSection [] ∧
      (r.outline.manual.flatMap fun c =>
        c.2.map fun x => (x.rule, x.count, x.items.map (·.path))) =
        [("tone", 1, ["a.css"]), ("ink", 2, ["a.css", "b.css"]), ("paper", 1, ["a.css"])] ∧
      listItems (r.outline.fixText r.mode) =
        ["- \x60b.css:1:10\x60 **ink**: \x60#fff -> var(--w)\x60".toList] ∧
      (listItems (r.outline.manualText g)).length = 4 := by
  intro finding fix manual files g
  have hok : (aggregate .scan 2 files [] : Except (ReportFlaw Float) Report).isOk := by
    simp only [aggregate, mergeSort_eq_sortUpTo]
    decide +kernel
  cases h : (aggregate .scan 2 files [] : Except (ReportFlaw Float) Report) with
  | error e =>
    rw [h] at hok
    cases hok
  | ok r =>
    obtain ⟨hlists, hitems, htext, -⟩ := markdown_lists h [] g
    have hr := eq_tally_of_aggregate h
    refine ⟨r, rfl, hlists, htext, ?_, ?_, ?_⟩
    · rw [hr]
      simp only [outline, mergeSort_eq_sortUpTo]
      decide +kernel
    · rw [hitems.fixes, hr]
      simp only [outline, mergeSort_eq_sortUpTo]
      decide +kernel
    · rw [hitems.manual, hr]
      simp only [outline, mergeSort_eq_sortUpTo]
      decide +kernel

/-- A fix with a list on lines of its own is printed as three items. -/
theorem exists_listed_thrice :
    let c := Config.ofRules [.ofTag "button" (.substitution (some "Button") [])]
    let file := Source.ofText "a.tsx" "<button title=\"\n- b\n- c\"/>".toList
    ∃ g, Registry.ofConfig c = .ok g ∧ ∃ r : Report,
      aggregate .scan 1 [(review g file).result .scan .written] [] = .ok r ∧
      r.autoFixed = 1 ∧ r.manualReview = 0 ∧ (listItems (r.markdown [] g)).length = 3 := by
  intro c file
  let g := Registry.ofRules [.ofTag "button" (.substitution (some "Button") [])]
  let files := [(review g file).result .scan .written]
  have hok : (aggregate .scan 1 files [] : Except (ReportFlaw Float) Report).isOk := by
    simp only [aggregate, files, review, Registry.findings, mergeSort_eq_sortUpTo]
    decide +kernel
  cases h : (aggregate .scan 1 files [] : Except (ReportFlaw Float) Report) with
  | error e =>
    rw [h] at hok
    cases hok
  | ok r =>
    refine ⟨g, rfl, r, h, ?_⟩
    rw [listItems_markdown, eq_tally_of_aggregate h]
    simp only [outline, files, review, Registry.findings, mergeSort_eq_sortUpTo]
    decide +kernel

end

end Report

end DesignLint
