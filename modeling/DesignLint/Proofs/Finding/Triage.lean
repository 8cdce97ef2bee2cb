import DesignLint.Proofs.Finding.Search
import DesignLint.Run.Review

/-!
# Findings that can be fixed

A finding of the registry is triaged by its rule, so it can be fixed exactly if nothing stands in
the way (`confidence_triageFinding`). A value that can be fixed is a literal constant
(`obstacle?_value_eq_none`), and so is not empty.
-/

namespace DesignLint

namespace Registry

/-- The findings in a file, each with its resolution. -/
def triaged (g : Registry) (file : Source) : List Finding := (g.findings file).map g.triageFinding

variable {g : Registry} {f : Finding}

@[simp] theorem rule_triageFinding : (g.triageFinding f).rule = f.rule := by
  unfold triageFinding
  split <;> rfl

@[simp] theorem site_triageFinding : (g.triageFinding f).site = f.site := by
  unfold triageFinding
  split <;> rfl

/-- **A finding can be fixed if nothing stands in the way, and else a person has to look at it.** -/
theorem confidence_triageFinding {r : Rule} (hr : g.rule? f.rule = some r) :
    (g.triageFinding f).confidence =
      some (if obstacle? r f.site = none then .autoFixable else .manualReview) := by
  rw [triageFinding, hr]
  simp only [Finding.confidence, triage, Option.map_some]
  split
  · next o ho =>
    rw [ho]
    rfl
  · next ho =>
    rw [ho]
    rfl

theorem on_of_triaged {c : Config} (hg : ofConfig c = .ok g) {file : Source} {i : Nat}
    (hf : (g.triaged file)[i]? = some f) : ∃ r, g.rule? f.rule = some r ∧ r ∈ g.rules ∧
      f.site ∈ r.sites g.approvals file ∧ f.site.On file.text ∧
      (f.confidence = some .autoFixable → obstacle? r f.site = none) := by
  obtain ⟨f', hf', rfl⟩ := List.mem_map.mp (List.mem_of_getElem? hf)
  obtain ⟨r, hr, hmem, hsite, hon, -⟩ := on_of_mem_findings hg hf'
  refine ⟨r, by simpa using hr, hmem, by simpa using hsite, by simpa using hon, fun hc => ?_⟩
  rw [confidence_triageFinding hr] at hc
  rw [site_triageFinding]
  by_contra ho
  simp [ho] at hc

theorem clashes_triaged {file : Source} {i j : Nat} {h : Finding}
    (hi : (g.triaged file)[i]? = some f) (hj : (g.triaged file)[j]? = some h) (hij : i ≠ j) :
    f.site.clashes h.site = false := by
  have hpair : (g.triaged file).Pairwise fun a b => a.site.clashes b.site = false := by
    rw [triaged, List.pairwise_map]
    simpa using g.findings_pairwise file
  obtain ⟨hi', rfl⟩ := List.getElem?_eq_some_iff.mp hi
  obtain ⟨hj', rfl⟩ := List.getElem?_eq_some_iff.mp hj
  rcases Nat.lt_or_gt_of_ne hij with hlt | hlt
  · exact List.pairwise_iff_getElem.mp hpair i j hi' hj' hlt
  · rw [Site.clashes_comm]
    exact List.pairwise_iff_getElem.mp hpair j i hj' hi' hlt

end Registry

/-! ### What stands in no one's way -/

theorem Rule.obstacle?_eq_none {r : Rule} : r.obstacle? = none ↔ r.autofix ≠ .none := by
  unfold obstacle?
  split <;> simp_all

theorem valueObstacle?_eq_none {v : ValueSite} : valueObstacle? v = none ↔
    ¬ Text.has "$\x7b".toList v.value ∧ v.context ≠ .inlineExpression ∧ Value.isLiteral v.value := by
  unfold valueObstacle?
  split_ifs with h1 h2 h3 h4 <;> simp_all

theorem obstacle?_value_eq_none {r : Rule} {v : ValueSite} (h : obstacle? r (.value v) = none) :
    Value.isLiteral v.value := by
  rw [obstacle?, Option.orElse_eq_orElse, Option.orElse_eq_or, Option.or_eq_none_iff] at h
  exact (valueObstacle?_eq_none.mp h.1).2.2

theorem elementObstacle?_eq_none {e : Element} : elementObstacle? e = none ↔
    e.terminated = true ∧ e.spreads = false ∧ classObstacle? e = none ∧ refObstacle? e = none ∧
      childrenObstacle? e = none := by
  unfold elementObstacle?
  split_ifs with h1 h2 <;>
    simp_all [Option.orElse_eq_orElse, Option.orElse_eq_or, Option.or_eq_none_iff]

theorem obstacle?_element_eq_none {r : Rule} {e : Element} (h : obstacle? r (.element e) = none) :
    e.terminated = true ∧ e.spreads = false := by
  rw [obstacle?, Option.orElse_eq_orElse, Option.orElse_eq_or, Option.or_eq_none_iff,
    elementObstacle?_eq_none] at h
  exact ⟨h.1.1, h.1.2.1⟩

theorem ne_nil_of_isLiteral {v : Text} (h : Value.isLiteral v) : v ≠ [] := by
  rintro rfl
  exact absurd h (by decide)

end DesignLint
