import DesignLint.Proofs.Fix.Rewrite

/-!
# What a file shows after a run

After a run that fixes, a file shows the edits of the applied findings, or none if they could not be
written (`shownEdits`). So its text is the original one with these edits carried out
(`shownText_eq`). The findings after the run are those that were triaged, at the same places; a
finding that a person still has to look at is none of those whose edits are shown
(`exists_of_mem_result`).
-/

namespace DesignLint

/-- Whether there was something to write, and it could not be written. -/
def Review.lost (r : Review) (write : WriteOutcome) : Bool := r.changed && write != .written

/-- The text of a file after a run that fixes. -/
def Review.shownText (r : Review) (write : WriteOutcome) : Text :=
  if (r.result .fix write).written then r.text else r.source.text

/-- The edits that a file shows after a run that fixes. -/
def shownEdits (g : Registry) (file : Source) (write : WriteOutcome) : List Edit :=
  if (review g file).lost write then []
  else (acceptFixes g file.text (g.triaged file)).edits

/-! ### Resolutions -/

theorem lookup_eq_none_iff {α : Type} {changes : List (Nat × α)} {i : Nat} :
    changes.lookup i = none ↔ i ∉ changes.map Prod.fst := by
  induction changes with
  | nil => simp
  | cons p ps ih =>
    obtain ⟨j, a⟩ := p
    rw [List.lookup_cons, List.map_cons, List.mem_cons, not_or]
    by_cases h : i = j
    · simp [h]
    · have : (i == j) = false := by simpa using h
      rw [this]
      simp only [ih]
      exact ⟨fun hi => ⟨h, hi⟩, fun hi => hi.2⟩

section

variable {α : Type} {changes : List (Nat × α)} {change : α → Resolution → Resolution}
  {fs : List Finding} {i : Nat} {f : Finding}

theorem getElem?_resolveEach (h : (resolveEach changes change fs)[i]? = some f) :
    ∃ f₀, fs[i]? = some f₀ ∧ f.site = f₀.site ∧ f.rule = f₀.rule ∧
      (i ∉ changes.map Prod.fst → f = f₀) ∧
      ∀ k, (∀ a r, (change a r).confidence = k → r.confidence = k) →
        f.confidence = some k → f₀.confidence = some k := by
  rw [resolveEach, List.getElem?_mapIdx, Option.map_eq_some_iff] at h
  obtain ⟨f₀, hf₀, rfl⟩ := h
  refine ⟨f₀, hf₀, ?_⟩
  cases hl : changes.lookup i with
  | none => exact ⟨rfl, rfl, fun _ => rfl, fun _ _ h => h⟩
  | some a =>
    refine ⟨rfl, rfl, fun hi => ?_, fun k hk hc => ?_⟩
    · rw [lookup_eq_none_iff.mpr hi] at hl
      cases hl
    · simp only [Finding.confidence, Finding.resolve, Option.map_map, Option.map_eq_some_iff,
        Function.comp_apply] at hc ⊢
      obtain ⟨r, hr, hc⟩ := hc
      exact ⟨r, hr, hk a r hc⟩

end

/-- After a run that fixes, only the resolutions of applied findings have changed; none of them can
be fixed that could not be before, and a person has to look at one of them only if it could not be
written. -/
theorem Review.exists_finalFindings (r : Review) (write : WriteOutcome) :
    ∃ change : Text → Resolution → Resolution,
      r.finalFindings .fix write = resolveEach r.applied change r.findings ∧
        (∀ t x, (change t x).confidence = .autoFixable → x.confidence = .autoFixable) ∧
        (r.lost write = false →
          ∀ t x, (change t x).confidence = .manualReview → x.confidence = .manualReview) := by
  have hwrites : RunMode.fix.writes = true := rfl
  unfold finalFindings
  rw [hwrites]
  cases hc : r.changed with
  | false => exact ⟨_, rfl, fun _ _ h => h, fun _ _ _ h => h⟩
  | true =>
    cases write with
    | written => exact ⟨_, rfl, fun _ _ h => h, fun _ _ _ h => h⟩
    | failed why =>
      refine ⟨_, rfl, fun _ _ h => ?_, fun hlost => ?_⟩
      · cases h
      · simp [lost, hc] at hlost

/-! ### The text -/

section

variable {c : Config} {g : Registry} {file : Source} {write : WriteOutcome}

theorem review_text (g : Registry) (file : Source) :
    (review g file).text = splice file.text (acceptFixes g file.text (g.triaged file)).edits := rfl

theorem review_applied (g : Registry) (file : Source) :
    (review g file).applied = (rewrite g file.text (g.triaged file)).applied := rfl

theorem spliceable_shownEdits (hg : Registry.ofConfig c = .ok g) (file : Source)
    (write : WriteOutcome) : Spliceable file.text (shownEdits g file write) := by
  unfold shownEdits
  split_ifs
  · exact .nil _
  · exact spliceable_acceptFixes hg file

/-- **The text after a run is the original one with the shown edits carried out.** -/
theorem shownText_eq (g : Registry) (file : Source) (write : WriteOutcome) :
    (review g file).shownText write = splice file.text (shownEdits g file write) := by
  have hsource : (review g file).source = file := rfl
  have hwritten : ((review g file).result .fix write).written =
      ((review g file).changed && write == .written) := rfl
  unfold Review.shownText shownEdits Review.lost
  rw [hwritten, hsource]
  cases hc : (review g file).changed with
  | true =>
    cases hw : write == .written with
    | true => simp [bne, hw, review_text]
    | false => simp [bne, hw, splice]
  | false =>
    have ht : (review g file).text = file.text := by simpa [Review.changed, hsource] using hc
    simpa [review_text] using ht.symm

/-! ### The findings -/

theorem exists_of_mem_shownEdits (hg : Registry.ofConfig c = .ok g) {d : Edit}
    (hd : d ∈ shownEdits g file write) : (review g file).lost write = false ∧
      ∃ j h p, (j, h) ∈ fixableFindings (g.triaged file) ∧
        j ∈ (review g file).applied.map Prod.fst ∧ planFix g file.text h = .ok p ∧ d ∈ p.edits := by
  unfold shownEdits at hd
  split_ifs at hd with hlost
  · simp at hd
  · exact ⟨by simpa using hlost, exists_of_mem_edits hg hd⟩

/-- **A finding after a run is one that was triaged**; if it can be fixed it could be before, and if
a person has to look at it, its edits are not shown. -/
theorem exists_of_mem_result (hg : Registry.ofConfig c = .ok g) {f : Finding}
    (hf : f ∈ ((review g file).result .fix write).findings) :
    ∃ i f₀, (g.triaged file)[i]? = some f₀ ∧ f.site = f₀.site ∧ f.rule = f₀.rule ∧
      (f.confidence = some .autoFixable → f₀.confidence = some .autoFixable) ∧
      (f.confidence = some .manualReview → (review g file).lost write = false →
        i ∉ (review g file).applied.map Prod.fst) := by
  have hatomic : (rewrite g file.text (g.triaged file)).Atomic g file.text (g.triaged file) _ :=
    atomic_of_spliceable fun _ _ => spliceable_of_mem_fixableFindings hg
  obtain ⟨i, hi⟩ := List.mem_iff_getElem?.mp hf
  obtain ⟨change, heq, hfixable, hmanual⟩ := (review g file).exists_finalFindings write
  rw [Review.result, heq] at hi
  -- from the end of the run back to the plans, the failures, and the triage
  obtain ⟨f₁, hf₁, hs₁, hr₁, -, hc₁⟩ := getElem?_resolveEach hi
  obtain ⟨f₂, hf₂, hs₂, hr₂, -, hc₂⟩ := getElem?_resolveEach hf₁
  obtain ⟨f₀, hf₀, hs₀, hr₀, hsame, hc₀⟩ := getElem?_resolveEach hf₂
  refine ⟨i, f₀, hf₀, hs₁.trans (hs₂.trans hs₀), hr₁.trans (hr₂.trans hr₀), fun hc => ?_,
    fun hc hlost hi => ?_⟩
  · exact hc₀ _ (fun _ _ h => (by cases h)) (hc₂ _ (fun _ _ h => h) (hc₁ _ hfixable hc))
  · have hnot : i ∉ (rewrite g file.text (g.triaged file)).failed.map Prod.fst := fun hfail =>
      (List.nodup_append.mp hatomic.nodup).2.2 i hi i hfail rfl
    obtain ⟨f₃, hf₃, hfix⟩ := (hatomic.mem_iff i).mp (List.mem_append_left _ hi)
    obtain rfl : f₀ = f₃ := Option.some.inj (hf₀.symm.trans hf₃)
    have hreview := hc₂ _ (fun _ _ h => h) (hc₁ _ (hmanual hlost) hc)
    rw [hsame hnot, hfix] at hreview
    cases hreview

end

end DesignLint
