import DesignLint.Proofs.Finding.Search
import DesignLint.Proofs.Rule.Sample
import DesignLint.Proofs.Sort

/-!
# Findings that are kept

A place of a rule is kept, unless it overlaps a place that was kept before it
(`Registry.kept_or_claimed`): a place of an earlier rule, or an earlier place of the same rule. The
second happens where places of one rule lie in each other, as an element in an attribute of
another does (`exists_nested_dropped`); matches of a regular expression do not.
-/

namespace DesignLint

/-! ### One finding after the other -/

section

variable {kept fs as bs : List Finding} {f : Finding}

theorem mem_keepUnclaimed (h : Finding) (hk : h ∈ kept) : h ∈ keepUnclaimed kept f := by
  unfold keepUnclaimed
  split_ifs
  · exact hk
  · exact List.mem_append_left _ hk

theorem mem_foldl_keepUnclaimed (h : Finding) (hk : h ∈ kept) :
    h ∈ fs.foldl keepUnclaimed kept := by
  induction fs generalizing kept with
  | nil => exact hk
  | cons f fs ih => exact ih (mem_keepUnclaimed h hk)

theorem self_mem_keepUnclaimed_or (kept : List Finding) (f : Finding) :
    f ∈ keepUnclaimed kept f ∨ ∃ h ∈ kept, h.site.clashes f.site = true := by
  unfold keepUnclaimed
  split_ifs with hany
  · exact Or.inr (by simpa using hany)
  · exact Or.inl (by simp)

/-- A finding is kept, unless it clashes with one that comes before it and is kept. -/
theorem mem_foldl_keepUnclaimed_or (as bs : List Finding) (f : Finding) :
    f ∈ (as ++ f :: bs).foldl keepUnclaimed [] ∨
      ∃ h ∈ (as ++ f :: bs).foldl keepUnclaimed [], h ∈ as ∧ h.site.clashes f.site = true := by
  rw [List.foldl_append, List.foldl_cons]
  rcases self_mem_keepUnclaimed_or (as.foldl keepUnclaimed []) f with hf | ⟨h, hh, hclash⟩
  · exact Or.inl (mem_foldl_keepUnclaimed f hf)
  · have has := (mem_of_mem_foldl_keepUnclaimed hh).resolve_left List.not_mem_nil
    exact Or.inr ⟨h, mem_foldl_keepUnclaimed h (mem_keepUnclaimed h hh), has, hclash⟩

end

/-! ### All rules -/

/-- Places of a regular expression do not overlap. -/
theorem Rule.pairwise_sites_of_regex {r : Rule} {re : Regex} {source : String}
    (hp : r.pattern = .regex re) (hre : Regex.ofText source = .ok re) (approvals : Approvals)
    (file : Source) :
    (r.sites approvals file).Pairwise fun s t => s.clashes t = false := by
  unfold sites
  rw [hp]
  refine List.pairwise_map.mpr (((Regex.sites_apart hre file.text).2.filter _).imp ?_)
  intro v w hle
  have hover : v.span.overlaps w.span = false := Span.overlaps_eq_false.mpr (Or.inr hle)
  simp [Site.clashes, Site.span, hover]

namespace Registry

variable {g : Registry} {file : Source}

theorem mem_findings {f : Finding} : f ∈ g.findings file ↔
    f ∈ (g.rules.flatMap (·.findings g.approvals file)).foldl keepUnclaimed [] :=
  List.mem_mergeSort

/-- **A place of a rule is kept, unless it overlaps a place of the same kind that is kept for an
earlier rule, or one that the rule itself, unless it is a regular expression, found before it.** -/
theorem kept_or_claimed {c : Config} (hg : ofConfig c = .ok g) (file : Source) {r : Rule}
    {before after : List Rule} (hr : g.rules = before ++ r :: after) {s : Site}
    {sites sites' : List Site} (hs : r.sites g.approvals file = sites ++ s :: sites') :
    r.finding file s ∈ g.findings file ∨
      (∃ h ∈ g.findings file, h.site.clashes s = true ∧
        ∃ q ∈ before, h ∈ q.findings g.approvals file) ∨
      ((∀ re, r.pattern ≠ .regex re) ∧
        ∃ t ∈ sites, t.clashes s = true ∧ r.finding file t ∈ g.findings file) := by
  have hsplit : g.rules.flatMap (·.findings g.approvals file) =
      (before.flatMap (·.findings g.approvals file) ++ sites.map (r.finding file)) ++
        r.finding file s ::
          (sites'.map (r.finding file) ++ after.flatMap (·.findings g.approvals file)) := by
    simp [hr, Rule.findings, hs]
  simp only [mem_findings, hsplit]
  rcases mem_foldl_keepUnclaimed_or (before.flatMap (·.findings g.approvals file) ++
    sites.map (r.finding file)) _ (r.finding file s) with hf | ⟨h, hh, hbefore, hclash⟩
  · exact Or.inl hf
  · refine Or.inr ?_
    rcases List.mem_append.mp hbefore with hbefore | hsame
    · obtain ⟨q, hq, hfound⟩ := List.mem_flatMap.mp hbefore
      exact Or.inl ⟨h, hh, hclash, q, hq, hfound⟩
    · obtain ⟨t, ht, rfl⟩ := List.mem_map.mp hsame
      refine Or.inr ⟨fun re hre => ?_, t, ht, hclash, hh⟩
      obtain ⟨source, hsource⟩ := exists_ofText_of_ofConfig hg (by simp [hr]) hre
      have hpair := Rule.pairwise_sites_of_regex hre hsource g.approvals file
      rw [hs, List.pairwise_append] at hpair
      have hapart := hpair.2.2 t ht s (by simp)
      exact absurd (hclash.symm.trans hapart) (by simp)

/-- Of two rules about one tag the second one is left without a finding. -/
theorem kept_or_claimed_button :
    let g := ofRules [.ofTag "button" .none, { RuleSpec.ofTag "button" .none with id := "again" }]
    let file := Source.ofText "a.tsx" "<button/>".toList
    ∃ q r s, g.rules = [q, r] ∧ r.sites g.approvals file = [s] ∧
      r.finding file s ∉ g.findings file ∧
      ∃ h ∈ g.findings file, h.site.clashes s = true ∧ h ∈ q.findings g.approvals file := by
  intro g file
  have hg : ofConfig (.ofRules
      [.ofTag "button" .none, { RuleSpec.ofTag "button" .none with id := "again" }]) = .ok g := rfl
  obtain ⟨q, r, hrules⟩ : ∃ q r, g.rules = [q, r] := ⟨_, _, rfl⟩
  have hone : (r.sites g.approvals file).length = 1 := by
    cases hrules
    decide +kernel
  have hdropped : ∀ s ∈ r.sites g.approvals file, r.finding file s ∉ g.findings file := by
    cases hrules
    simp only [findings, mergeSort_eq_sortUpTo]
    decide +kernel
  obtain ⟨s, hs⟩ := List.length_eq_one_iff.mp hone
  have hnot := hdropped s (by simp [hs])
  have hsecond : g.rules = [q] ++ r :: [] := hrules
  have hfirst : r.sites g.approvals file = [] ++ s :: [] := hs
  rcases kept_or_claimed hg file hsecond hfirst with
    hkept | ⟨h, hh, hclash, q', hq, hfound⟩ | ⟨-, t, ht, -⟩
  · exact absurd hkept hnot
  · rw [List.mem_singleton.mp hq] at hfound
    exact ⟨q, r, s, hrules, hs, hnot, h, hh, hclash, hfound⟩
  · exact absurd ht List.not_mem_nil

/-- An element in an attribute of another one of the same name is a place of the rule, and dropped
although there is no earlier rule. -/
theorem exists_nested_dropped :
    let c := Config.ofRules [.ofTag "button" .none]
    let file := Source.ofText "a.tsx" "<button a={<button/>}/>".toList
    ∃ g, ofConfig c = .ok g ∧ ∃ r, g.rules = [r] ∧ ∃ s ∈ r.sites g.approvals file,
      r.finding file s ∉ g.findings file := by
  intro c file
  refine ⟨.ofRules [.ofTag "button" .none], rfl, _, rfl, ?_⟩
  simp only [findings, mergeSort_eq_sortUpTo]
  decide +kernel

end Registry

end DesignLint
