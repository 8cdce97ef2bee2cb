import DesignLint.Proofs.Finding.Triage
import DesignLint.Proofs.Fix.Plan
import DesignLint.Proofs.Rule.Sample
import DesignLint.Proofs.Sort
import DesignLint.Proofs.Style.Interpolation

/-!
# Interpolations are opaque

Every declared value that is found in a script is declared in a template literal
(`exists_template_of_mem_findings`). If it overlaps an interpolation, it shows the mark of one, and a
person has to look at it; so the plan for a declared value that can be fixed leaves all
interpolations alone (`Registry.interpolations_untouched`).
-/

namespace DesignLint

open Style

namespace Registry

variable {c : Config} {g : Registry} {file : Source} {f : Finding} {v : ValueSite}

theorem exists_template_of_mem_findings (hkind : file.kind = .script) (hf : f ∈ g.findings file)
    (hsite : f.site = .value v) (hcontext : v.context = .declaration) :
    ∃ properties, ∃ t ∈ templateBodies file.text, v ∈ templateSites properties t := by
  obtain ⟨r, -, s, hs, rfl⟩ := exists_rule_of_mem_findings hf
  obtain rfl : s = .value v := hsite
  rcases Rule.value_mem_sites.mp hs with ⟨p, -, hv, -⟩ | ⟨re, -, hv, -⟩
  · rcases p.cases_of_mem_sites hv with ⟨-, -, ht⟩ | ⟨-, hv⟩ | ⟨hclass, -⟩
    · exact ⟨_, ht hkind⟩
    · obtain ⟨raw, hraw, -⟩ := exists_inlineContext? hv
      exact absurd hcontext (inlineContext?_eq_some hraw).1
    · rw [hcontext] at hclass
      cases hclass
  · have hraw := (Regex.within_of_mem_sites hv).2
    rw [hcontext] at hraw
    cases hraw

/-- A value that shows the mark of an interpolation is left to a person. -/
theorem confidence_of_has (hg : ofConfig c = .ok g) (hf : f ∈ g.findings file)
    (hsite : f.site = .value v) (hv : Text.has interpolationMark v.value) :
    (g.triageFinding f).confidence = some .manualReview := by
  obtain ⟨r, hr, -⟩ := on_of_mem_findings hg hf
  have hne : obstacle? r f.site ≠ none := by
    intro hnone
    rw [hsite, obstacle?, Option.orElse_eq_orElse, Option.orElse_eq_or,
      Option.or_eq_none_iff] at hnone
    exact (valueObstacle?_eq_none.mp hnone.1).1 hv
  rw [confidence_triageFinding hr, if_neg hne]

/-- **Interpolations are opaque.** The mask of a template literal of a script covers exactly some
spans, its interpolations; a declared value that overlaps one of them is left to a person, and what
is planned for one that can be fixed leaves them alone. -/
theorem interpolations_untouched (hg : ofConfig c = .ok g) (hkind : file.kind = .script)
    {t : TemplateBody} (ht : t ∈ templateBodies file.text) :
    maskInterpolations t.body.length (.start t.body) =
      coverSpans 'x' (interpolations t.body) 0 t.body ∧
    ∀ s ∈ interpolations t.body, ∀ f ∈ g.findings file, ∀ v, f.site = .value v →
      v.context = .declaration →
      (v.span.overlaps (s.shift t.start.offset) →
        (g.triageFinding f).confidence = some .manualReview) ∧
      ((g.triageFinding f).confidence = some .autoFixable → ∀ p, planFix g file.text f = .ok p →
        ∀ e ∈ p.edits, e.span.overlaps (s.shift t.start.offset) = false) := by
  refine ⟨maskInterpolations_eq t.body, fun s hs f hf v hsite hcontext => ?_⟩
  have hmanual : v.span.overlaps (s.shift t.start.offset) →
      (g.triageFinding f).confidence = some .manualReview := fun ho => by
    obtain ⟨properties, u, hu, hv⟩ := exists_template_of_mem_findings hkind hf hsite hcontext
    exact confidence_of_has hg hf hsite (has_of_mem_templateSites hu hv ht hs ho)
  refine ⟨hmanual, fun hauto p hp e he => ?_⟩
  obtain ⟨r, hr, -⟩ := on_of_mem_findings hg hf
  rw [planFix_eq hr, hsite] at hp
  obtain ⟨_, _, token, -, -, -, rfl⟩ := planValue_eq_ok hp
  rw [List.mem_singleton.mp he, ← Bool.not_eq_true]
  intro ho
  rw [hmanual ho] at hauto
  cases hauto

/-- A colour next to an interpolation is replaced, and a colour that is interpolated is left. -/
theorem interpolations_untouched_color :
    let g := ofRules [.ofColor [("#fff", "var(--w)")]]
    let file := Source.ofText "a.tsx" "`color: #fff; color: $\x7bb\x7d;`".toList
    ∃ t ∈ templateBodies file.text, ∃ s ∈ interpolations t.body,
      (∃ f ∈ g.findings file, ∃ p, planFix g file.text f = .ok p ∧ p.edits ≠ [] ∧
        ∀ e ∈ p.edits, e.span.overlaps (s.shift t.start.offset) = false) ∧
      ∃ f ∈ g.findings file, f.site.span.overlaps (s.shift t.start.offset) ∧
        (g.triageFinding f).confidence = some .manualReview := by
  intro g file
  have hg : ofConfig (.ofRules [.ofColor [("#fff", "var(--w)")]]) = .ok g := rfl
  let plain : ValueSite := ⟨⟨8, 12⟩, "#fff".toList, "color".toList, .declaration⟩
  let inserted : ValueSite := ⟨⟨21, 25⟩, "$\x7bb\x7d".toList, "color".toList, .declaration⟩
  let plan : FixPlan := ⟨[⟨⟨8, 12⟩, "var(--w)".toList⟩], "var(--w)".toList⟩
  have hfound : ∃ t ∈ templateBodies file.text, ⟨20, 24⟩ ∈ interpolations t.body ∧
      t.start.offset = 1 := by decide +kernel
  obtain ⟨t, ht, hs, hstart⟩ := hfound
  have hplain : ∃ f ∈ g.findings file, f.site = .value plain ∧
      (g.triageFinding f).confidence = some .autoFixable ∧
      planFix g file.text f = .ok plan := by
    simp only [findings, Rule.findings, Rule.sites, DeclarationPattern.sites, planFix,
      mergeSort_eq_sortUpTo]
    decide +kernel
  have hinserted : ∃ f ∈ g.findings file, f.site = .value inserted := by
    simp only [findings, Rule.findings, Rule.sites, DeclarationPattern.sites,
      mergeSort_eq_sortUpTo]
    decide +kernel
  obtain ⟨f, hf, hsite, hauto, hp⟩ := hplain
  obtain ⟨f', hf', hsite'⟩ := hinserted
  have huntouched := (interpolations_untouched hg rfl ht).2 _ hs
  have hover : inserted.span.overlaps (Span.shift ⟨20, 24⟩ t.start.offset) := by
    rw [hstart]
    rfl
  refine ⟨t, ht, _, hs, ⟨f, hf, plan, hp, by simp [plan], ?_⟩, f', hf', ?_, ?_⟩
  · exact (huntouched f hf plain hsite rfl).2 hauto plan hp
  · rw [hsite']
    exact hover
  · exact (huntouched f' hf' inserted hsite' rfl).1 hover

end Registry

end DesignLint
