import DesignLint.Proofs.Run.Review

/-!
# What becomes of a finding

A review leaves a resolution in one of three states (`Resolution.Reviewed`): a person has to look at
the finding, its fix is planned, or its fix was given up. Only in the second state is there a
replacement for it among those to be applied (`exists_reviewed`), and only such a resolution is
changed when the run ends (`getElem?_finalFindings`).
-/

namespace DesignLint

/-- The states in which a review leaves a resolution, given the replacement to be applied. -/
inductive Resolution.Reviewed : Option Text → Resolution → Prop
  | manual (why : String) : Reviewed none (.manual why)
  | planned (why : String) (t : Text) : Reviewed (some t) ((Resolution.fixable why).plan t)
  | failed (failure : FixFailure) : Reviewed none (.demote failure)

/-- What the end of a run makes of a resolution with a replacement to be applied. -/
def Review.conclude (r : Review) (mode : RunMode) (write : WriteOutcome) (t : Text)
    (x : Resolution) : Resolution :=
  if !mode.writes then x
  else if !r.changed then x.apply t
  else
    match write with
    | .written => x.apply t
    | .failed why => .demote (.writeFailed why)

/-! ### Changes of resolutions -/

theorem Finding.resolve_id (f : Finding) : f.resolve id = f := by simp [resolve]

theorem getElem?_resolveEach_eq {α : Type} (changes : List (Nat × α))
    (change : α → Resolution → Resolution) (fs : List Finding) (i : Nat) :
    (resolveEach changes change fs)[i]? =
      fs[i]?.map (Finding.resolve ((changes.lookup i).elim id change)) := by
  rw [resolveEach, List.getElem?_mapIdx]
  congr 1
  funext f
  cases changes.lookup i with
  | none => exact f.resolve_id.symm
  | some a => rfl

/-- **The end of a run changes the resolutions of the applied findings only.** -/
theorem Review.getElem?_finalFindings (r : Review) (mode : RunMode) (write : WriteOutcome)
    (i : Nat) : (r.finalFindings mode write)[i]? =
      r.findings[i]?.map (Finding.resolve ((r.applied.lookup i).elim id (r.conclude mode write))) := by
  unfold finalFindings
  split_ifs with hmode hchanged
  · have hid : (r.applied.lookup i).elim id (r.conclude mode write) = id := by
      cases r.applied.lookup i with
      | none => rfl
      | some t =>
        funext x
        simp only [Option.elim_some, conclude, if_pos hmode, id_eq]
    rw [hid, funext Finding.resolve_id, Option.map_id']
  · have hc : r.conclude mode write = Resolution.apply := by
      funext t x
      simp only [conclude, if_neg hmode, if_pos hchanged]
    rw [getElem?_resolveEach_eq, hc]
  · have hc : r.conclude mode write = match write with
        | .written => Resolution.apply
        | .failed why => fun _ _ => .demote (.writeFailed why) := by
      funext t x
      simp only [conclude, if_neg hmode, if_neg hchanged]
      cases write <;> rfl
    cases write with
    | written => rw [getElem?_resolveEach_eq, hc]
    | failed why => rw [getElem?_resolveEach_eq, hc]

/-! ### What a review leaves -/

section

variable {c : Config} {g : Registry} {file : Source}

theorem resolution_triaged (hg : Registry.ofConfig c = .ok g) {i : Nat} {f : Finding}
    (hf : (g.triaged file)[i]? = some f) : ∃ why,
      f.resolution = some (.manual why) ∨ f.resolution = some (.fixable why) := by
  obtain ⟨f', hf', rfl⟩ := List.mem_map.mp (List.mem_of_getElem? hf)
  obtain ⟨r, hr, -, -, -, -⟩ := Registry.on_of_mem_findings hg hf'
  rw [Registry.triageFinding, hr]
  simp only [triage]
  split
  · exact ⟨_, Or.inl rfl⟩
  · exact ⟨_, Or.inr rfl⟩

theorem getElem?_review (g : Registry) (file : Source) (i : Nat) :
    (review g file).findings[i]? = (g.triaged file)[i]?.map fun f =>
      (f.resolve (((rewrite g file.text (g.triaged file)).failed.lookup i).elim id
        fun failure _ => .demote failure)).resolve
          (((review g file).applied.lookup i).elim id .plan) := by
  simp only [review, getElem?_resolveEach_eq, Option.map_map]
  rfl

theorem exists_lookup_of_mem {α : Type} {changes : List (Nat × α)} {i : Nat}
    (h : i ∈ changes.map Prod.fst) : ∃ a, changes.lookup i = some a := by
  rw [← Option.isSome_iff_exists, Option.isSome_iff_ne_none, ne_eq, lookup_eq_none_iff]
  exact fun hn => hn h

/-- **A review leaves every finding with a resolution in one of the three states.** -/
theorem exists_reviewed (hg : Registry.ofConfig c = .ok g) {i : Nat} {f : Finding}
    (hf : (review g file).findings[i]? = some f) :
    ∃ x, f.resolution = some x ∧ x.Reviewed ((review g file).applied.lookup i) := by
  have hatomic : (rewrite g file.text (g.triaged file)).Atomic g file.text (g.triaged file) _ :=
    atomic_of_spliceable fun _ _ => spliceable_of_mem_fixableFindings hg
  rw [getElem?_review] at hf
  obtain ⟨f₀, hf₀, rfl⟩ := Option.map_eq_some_iff.mp hf
  have hmem := hatomic.mem_iff i
  have hapart := (List.nodup_append.mp hatomic.nodup).2.2 i
  rw [List.mem_append, hf₀] at hmem
  rw [review_applied]
  generalize (rewrite g file.text (g.triaged file)).applied = applied at hmem hapart ⊢
  generalize (rewrite g file.text (g.triaged file)).failed = failed at hmem hapart ⊢
  obtain ⟨why, hmanual | hfixable⟩ := resolution_triaged hg hf₀
  · -- a finding for a person is neither applied nor failed
    have hnot : ¬ (i ∈ applied.map Prod.fst ∨ i ∈ failed.map Prod.fst) := by
      rw [hmem]
      rintro ⟨f, hf, hc⟩
      obtain rfl := Option.some.inj hf
      rw [Finding.confidence, hmanual] at hc
      cases hc
    obtain ⟨happlied, hfailed⟩ := not_or.mp hnot
    rw [lookup_eq_none_iff.mpr happlied, lookup_eq_none_iff.mpr hfailed]
    exact ⟨_, by simp [Finding.resolve, hmanual], .manual why⟩
  · rcases hmem.mpr ⟨f₀, rfl, by rw [Finding.confidence, hfixable]; rfl⟩ with happlied | hfailed
    · have hnot : i ∉ failed.map Prod.fst := fun h => hapart happlied i h rfl
      obtain ⟨t, ht⟩ := exists_lookup_of_mem happlied
      rw [lookup_eq_none_iff.mpr hnot, ht]
      exact ⟨_, by simp [Finding.resolve, hfixable], .planned why t⟩
    · have hnot : i ∉ applied.map Prod.fst := fun h => hapart h i hfailed rfl
      obtain ⟨failure, hfailure⟩ := exists_lookup_of_mem hfailed
      rw [lookup_eq_none_iff.mpr hnot, hfailure]
      exact ⟨_, by simp [Finding.resolve, hfixable], .failed failure⟩

end

end DesignLint
