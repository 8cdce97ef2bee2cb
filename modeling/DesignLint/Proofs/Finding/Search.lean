import DesignLint.Finding.Search
import DesignLint.Proofs.Markup.Search
import DesignLint.Proofs.Rule.Registry
import DesignLint.Proofs.Style.Sites
import Mathlib.Data.List.Pairwise

/-!
# Findings of a file

Every finding is the finding of a rule of the registry at a place on the text
(`exists_rule_of_mem_findings`, `on_of_mem_findings`). No two findings with places of one kind
overlap (`findings_pairwise`); an element may overlap a value.
-/

namespace DesignLint

/-- A place that lies on a text. -/
def Site.On (cs : Text) : Site → Prop
  | .element e => e.On cs
  | .value v => v.Within cs

namespace Site

theorem clashes_comm (s t : Site) : s.clashes t = t.clashes s := by
  rw [clashes, clashes, Span.overlaps_comm, Bool.beq_comm]

end Site

/-! ### Places of a rule -/

theorem isNameChar_of_isTagName {name : String} (h : isTagName name) :
    ∀ d ∈ name.toList, Markup.isNameChar d := by
  intro d hd
  rw [isTagName, Bool.and_eq_true, List.all_eq_true] at h
  have := h.2 d hd
  simp only [Bool.or_eq_true, beq_iff_eq] at this
  rcases this with (hd | rfl) | rfl
  · simp [Markup.isNameChar, hd]
  · decide
  · decide

theorem toList_ne_nil_of_isTagName {name : String} (h : isTagName name) : name.toList ≠ [] := by
  intro hnil
  simp [isTagName, String.toList_eq_nil_iff.mp hnil] at h

theorem Rule.on_of_mem_sites {r : Rule} (hname : ∀ name, r.pattern = .tag name → isTagName name)
    {approvals : Approvals} {file : Source} {s : Site} (h : s ∈ r.sites approvals file) :
    s.On file.text ∧ ∀ p v, r.pattern = .declaration p → s = .value v → v.Framed file.text := by
  unfold sites at h
  split at h
  · next name hp =>
    split at h
    · obtain ⟨e, he, rfl⟩ := List.mem_map.mp h
      exact ⟨Markup.on_of_mem_findElements (toList_ne_nil_of_isTagName (hname name hp)) he, by simp⟩
    · simp at h
  · next p hp =>
    obtain ⟨v, hv, rfl⟩ := List.mem_map.mp h
    obtain ⟨hon, hframed⟩ := DeclarationPattern.on_of_mem_sites (List.mem_of_mem_filter hv)
    refine ⟨hon.within, fun q w _ hw => ?_⟩
    cases hw
    exact hframed
  · next re hp =>
    obtain ⟨v, hv, rfl⟩ := List.mem_map.mp h
    refine ⟨(Regex.within_of_mem_sites (List.mem_of_mem_filter hv)).1, fun q w hq => ?_⟩
    rw [hp] at hq
    cases hq

theorem Rule.element_mem_sites {r : Rule} {approvals : Approvals} {file : Source} {e : Element} :
    .element e ∈ r.sites approvals file ↔ ∃ name, r.pattern = .tag name ∧ file.kind = .script ∧
      e ∈ Markup.findElements file.text name.toList := by
  unfold sites
  split
  · next name hp =>
    split
    · next hk => simp [hp, hk]
    · next hk => simp [hk]
  · next p hp => simp [hp]
  · next re hp => simp [hp]

/-- The values that a rule finds are those of its pattern that are not approved. -/
theorem Rule.value_mem_sites {r : Rule} {approvals : Approvals} {file : Source} {v : ValueSite} :
    .value v ∈ r.sites approvals file ↔
      (∃ p, r.pattern = .declaration p ∧ v ∈ p.sites file ∧
        approvals.approves r.category v.approvalText = false ∧ p.accepts v.value = true) ∨
      ∃ re, r.pattern = .regex re ∧ v ∈ re.sites file.text ∧
        approvals.approves r.category v.value = false := by
  unfold sites
  split
  · next name hp =>
    split
    · simp [hp]
    · simp [hp]
  · next p hp => simp [hp]
  · next re hp => simp [hp]

theorem Rule.exists_value_of_mem_sites {r : Rule} {approvals : Approvals} {file file' : Source}
    {v : ValueSite} (hv : .value v ∈ r.sites approvals file) {s : Site}
    (h : s ∈ r.sites approvals file') : ∃ w, s = .value w := by
  cases s with
  | value w => exact ⟨w, rfl⟩
  | element e =>
    obtain ⟨name, hname, -⟩ := Rule.element_mem_sites.mp h
    rcases Rule.value_mem_sites.mp hv with ⟨p, hp, -⟩ | ⟨re, hp, -⟩
    · rw [hname] at hp
      cases hp
    · rw [hname] at hp
      cases hp

theorem Rule.mem_sites_of_declaration {r : Rule} {approvals : Approvals} {file : Source}
    {p : DeclarationPattern} (hp : r.pattern = .declaration p) {v : ValueSite}
    (h : .value v ∈ r.sites approvals file) :
    v ∈ p.sites file ∧ approvals.approves r.category v.approvalText = false := by
  rcases Rule.value_mem_sites.mp h with ⟨q, hq, hv, hnot, -⟩ | ⟨re, hre, -⟩
  · obtain rfl : q = p := by simpa [hq] using hp
    exact ⟨hv, hnot⟩
  · rw [hp] at hre
    cases hre

theorem Rule.mem_sites_of_regex {r : Rule} {approvals : Approvals} {file : Source} {re : Regex}
    (hre : r.pattern = .regex re) {v : ValueSite} (h : .value v ∈ r.sites approvals file) :
    v ∈ re.sites file.text ∧ approvals.approves r.category v.value = false := by
  rcases Rule.value_mem_sites.mp h with ⟨p, hp, -⟩ | ⟨re', hre', hv, hnot⟩
  · rw [hre] at hp
    cases hp
  · obtain rfl : re' = re := by simpa [hre'] using hre
    exact ⟨hv, hnot⟩

/-! ### Findings -/

section

variable {kept fs : List Finding}

theorem mem_of_mem_foldl_keepUnclaimed {f : Finding} (h : f ∈ fs.foldl keepUnclaimed kept) :
    f ∈ kept ∨ f ∈ fs := by
  induction fs generalizing kept with
  | nil => exact Or.inl h
  | cons g fs ih =>
    rcases ih h with h | h
    · unfold keepUnclaimed at h
      split_ifs at h
      · exact Or.inl h
      · rcases List.mem_append.mp h with h | h
        · exact Or.inl h
        · exact Or.inr (by simp [List.mem_singleton.mp h])
    · exact Or.inr (List.mem_cons_of_mem _ h)

theorem pairwise_foldl_keepUnclaimed
    (h : kept.Pairwise fun a b => a.site.clashes b.site = false) :
    (fs.foldl keepUnclaimed kept).Pairwise fun a b => a.site.clashes b.site = false := by
  induction fs generalizing kept with
  | nil => exact h
  | cons f fs ih =>
    refine ih ?_
    unfold keepUnclaimed
    split_ifs with hany
    · exact h
    · rw [List.pairwise_append]
      refine ⟨h, List.pairwise_singleton _ _, fun a ha b hb => ?_⟩
      obtain rfl := List.mem_singleton.mp hb
      simp only [List.any_eq_true, not_exists, not_and, Bool.not_eq_true] at hany
      exact hany a ha

end

namespace Registry

variable {g : Registry} {file : Source} {f : Finding}

/-- **A finding is that of a rule of the registry at one of its places.** -/
theorem exists_rule_of_mem_findings (h : f ∈ g.findings file) :
    ∃ r ∈ g.rules, ∃ s ∈ r.sites g.approvals file, f = r.finding file s := by
  have h := List.mem_mergeSort.mp h
  obtain ⟨r, hr, hf⟩ := List.mem_flatMap.mp
    ((mem_of_mem_foldl_keepUnclaimed h).resolve_left List.not_mem_nil)
  obtain ⟨s, hs, rfl⟩ := List.mem_map.mp hf
  exact ⟨r, hr, s, hs, rfl⟩

/-- **Findings with places of one kind do not overlap.** -/
theorem findings_pairwise (g : Registry) (file : Source) :
    (g.findings file).Pairwise fun a b => a.site.clashes b.site = false := by
  refine (List.mergeSort_perm _ _).symm.pairwise (pairwise_foldl_keepUnclaimed .nil) ?_
  intro a b hab
  rwa [Site.clashes_comm]

theorem on_of_mem_findings {c : Config} (hg : ofConfig c = .ok g) (h : f ∈ g.findings file) :
    ∃ r, g.rule? f.rule = some r ∧ r ∈ g.rules ∧ f.site ∈ r.sites g.approvals file ∧
      f.site.On file.text ∧ f.resolution = none := by
  obtain ⟨r, hr, s, hs, rfl⟩ := exists_rule_of_mem_findings h
  exact ⟨r, rule?_eq_some hg hr, hr, hs,
    (Rule.on_of_mem_sites (fun _ => isTagName_of_ofConfig hg hr) hs).1, rfl⟩

end Registry

end DesignLint
