import DesignLint.Proofs.Finding.Search
import DesignLint.Proofs.Rule.Sample
import DesignLint.Proofs.Sort

/-!
# Findings at one place

A place that a rule finds is not empty, unless it is a string of a style object without characters
(`Registry.lt_of_mem_sites`). So two findings of one kind, which do not overlap, are not at the same
place either, unless both are at such a string (`Registry.findings_apart`); an empty span overlaps
nothing, itself included, and there two rules do find the same place (`exists_found_twice`).
-/

namespace DesignLint

/-- Whether a place is a string of a style object without characters. -/
def Site.isEmptyString : Site → Bool
  | .element _ => false
  | .value v => v.context == .inlineString && v.value == []

namespace Registry

variable {c : Config} {g : Registry} {file : Source}

/-- **A place of a rule is not empty, unless it is an empty string of a style object.** -/
theorem lt_of_mem_sites (hg : ofConfig c = .ok g) {r : Rule} (hr : r ∈ g.rules) {s : Site}
    (h : s ∈ r.sites g.approvals file) (hs : s.isEmptyString = false) :
    s.span.start < s.span.stop := by
  cases s with
  | element e =>
    obtain ⟨hon, -⟩ := Rule.on_of_mem_sites (fun _ => isTagName_of_ofConfig hg hr) h
    have hon : e.On file.text := hon
    have hstart := hon.name_start
    have hname := hon.name_lt
    have hstop := hon.name_le
    show e.tag.start < e.tag.stop
    omega
  | value v =>
    rcases Rule.value_mem_sites.mp h with ⟨p, -, hv, -⟩ | ⟨re, hp, hv, -⟩
    · refine p.lt_of_mem_sites hv fun hnil hcontext => ?_
      simp [Site.isEmptyString, hnil, hcontext] at hs
    · obtain ⟨source, hsource⟩ := exists_ofText_of_ofConfig hg hr hp
      exact (Regex.sites_apart hsource file.text).1 v hv

/-- **Two findings of one kind do not overlap, and they are not at the same place, unless both are
at an empty string of a style object.** -/
theorem findings_apart (hg : ofConfig c = .ok g) (file : Source) :
    (g.findings file).Pairwise fun a b => a.site.isElement = b.site.isElement →
      a.site.span.overlaps b.site.span = false ∧
        (a.site.span = b.site.span → a.site.isEmptyString ∧ b.site.isEmptyString) := by
  refine (g.findings_pairwise file).imp_of_mem fun {a b} ha hb hclash hkind => ?_
  have hover : a.site.span.overlaps b.site.span = false := by
    simpa [Site.clashes, hkind] using hclash
  have hempty : ∀ {f : Finding}, f ∈ g.findings file →
      f.site.span.overlaps f.site.span = false → f.site.isEmptyString = true := by
    intro f hf hself
    obtain ⟨r, -, hr, hsite, -⟩ := on_of_mem_findings hg hf
    by_contra hne
    have hlt := lt_of_mem_sites hg hr hsite (by simpa using hne)
    rw [Span.overlaps_self.mpr hlt] at hself
    cases hself
  refine ⟨hover, fun heq => ⟨hempty ha ?_, hempty hb ?_⟩⟩
  · rwa [← heq] at hover
  · rwa [heq] at hover

/-- Two values of one style object, one of them empty, and two rules. -/
theorem findings_apart_color :
    let g := ofRules [.ofColorProperty "first", .ofColorProperty "second"]
    let file := Source.ofText "a.tsx" "<p style=\x7b\x7bcolor: 'red', color: ''\x7d\x7d/>".toList
    (g.findings file).length = 3 ∧ (g.findings file).Pairwise fun a b =>
      a.site.isElement = b.site.isElement → a.site.span.overlaps b.site.span = false ∧
        (a.site.span = b.site.span → a.site.isEmptyString ∧ b.site.isEmptyString) := by
  intro g file
  have hg : ofConfig (.ofRules [.ofColorProperty "first", .ofColorProperty "second"]) = .ok g := rfl
  refine ⟨?_, findings_apart hg file⟩
  simp only [findings, Rule.findings, Rule.sites, DeclarationPattern.sites, mergeSort_eq_sortUpTo]
  decide +kernel

/-- Two rules find an empty string of a style object, both of them at the same place. -/
theorem exists_found_twice :
    let c := Config.ofRules [.ofColorProperty "first", .ofColorProperty "second"]
    let file := Source.ofText "a.tsx" "<p style=\x7b\x7bcolor: ''\x7d\x7d/>".toList
    ∃ g, ofConfig c = .ok g ∧ ∃ a ∈ (g.findings file)[0]?, ∃ b ∈ (g.findings file)[1]?,
      a.rule ≠ b.rule ∧ a.site.isElement = b.site.isElement ∧ a.site.span = b.site.span := by
  intro c file
  refine ⟨.ofRules [.ofColorProperty "first", .ofColorProperty "second"], rfl, ?_⟩
  simp only [findings, mergeSort_eq_sortUpTo]
  decide +kernel

end Registry

end DesignLint
