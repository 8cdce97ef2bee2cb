import DesignLint.Proofs.Run.Review

/-!
# What is left to a person

Places of one kind do not overlap, so a fix touches only its own place, the places of the other kind
that overlap it, and whatever has been read around its closing tag (`Edit.Foreign`). What is left to
a person is therefore found again in the text after a run, wherever no such edit has changed it
(`manual_untouched`). Elements and values do overlap, so it need not be found again as a whole
(`exists_manual_touched`).
-/

namespace DesignLint

/-- An edit for another place than `s`: one of a finding with a place of the other kind, or one that
writes the name in a closing tag. -/
def Edit.Foreign (g : Registry) (file : Source) (s : Site) (d : Edit) : Prop :=
  ∃ j h p, (g.triaged file)[j]? = some h ∧ j ∈ (review g file).applied.map Prod.fst ∧
    planFix g file.text h = .ok p ∧ d ∈ p.edits ∧
    (h.site.isElement ≠ s.isElement ∨ ∃ e, h.site = .element e ∧ e.closing = some d.span)

/-- Where a span that no edit overlaps comes to lie when edits are carried out. -/
def movedSpan (es : List Edit) (s : Span) : Span :=
  ⟨moved es s.start, moved es s.start + (s.stop - s.start)⟩

section

variable {c : Config} {g : Registry} {file : Source} {i j : Nat} {f h : Finding}

/-- An edit of a plan lies in the place of the finding, or writes the name in a closing tag. -/
theorem span_of_mem_planFix (hg : Registry.ofConfig c = .ok g)
    (hmem : (j, h) ∈ fixableFindings (g.triaged file)) {p : FixPlan}
    (hp : planFix g file.text h = .ok p) {d : Edit} (hd : d ∈ p.edits) :
    (h.site.span.start ≤ d.span.start ∧ d.span.stop ≤ h.site.span.stop) ∨
      ∃ e, h.site = .element e ∧ e.closing = some d.span := by
  obtain ⟨r, hr, -, -, hon, -⟩ := exists_rule_of_mem_fixableFindings hg hmem
  rw [planFix_eq hr] at hp
  cases hs : h.site with
  | value v =>
    rw [hs] at hp
    obtain ⟨_, _, _, -, -, -, rfl⟩ := planValue_eq_ok hp
    rw [List.mem_singleton.mp hd]
    exact Or.inl ⟨Nat.le_refl _, Nat.le_refl _⟩
  | element e =>
    rw [hs] at hp hon
    have he : e.On file.text := hon
    obtain ⟨_, _, _, hedits⟩ := exists_edits_of_planElement hp
    have hname := he.name_start
    have hle := he.name_le
    rcases hedits.cases_mem hd with rfl | ⟨a, ha, rfl⟩ | ⟨s, hs, rfl⟩
    · exact Or.inl ⟨by simp only [Site.span]; omega, hle⟩
    · obtain ⟨-, h1, -, h2⟩ := withLead_spec he (hedits.dropped_mem a ha)
      have h3 := he.attributes a (hedits.dropped_mem a ha)
      have h4 := he.name_lt
      exact Or.inl ⟨by simp only [Site.span]; omega, by simp only [Site.span]; omega⟩
    · exact Or.inr ⟨e, rfl, hs⟩

/-- **What is left to a person is edited only for another place**, and what no edit overlaps of it
is found again. -/
theorem manual_untouched (hg : Registry.ofConfig c = .ok g) (file : Source) (write : WriteOutcome)
    (hf : f ∈ ((review g file).result .fix write).findings)
    (hmanual : f.confidence = some .manualReview) :
    (∀ d ∈ shownEdits g file write, d.span.overlaps f.site.span = true →
      d.Foreign g file f.site) ∧
    ∀ s : Span, s.On file.text → s.within f.site.span →
      (∀ d ∈ shownEdits g file write, d.span.overlaps s = false) →
      ((review g file).shownText write).slice (movedSpan (shownEdits g file write) s) =
        file.text.slice s := by
  refine ⟨fun d hd hover => ?_, fun s hs _ hapart => ?_⟩
  · obtain ⟨hlost, j, h, p, hmem, happlied, hp, hdp⟩ := exists_of_mem_shownEdits hg hd
    obtain ⟨i, f₀, hf₀, hsite, -, -, hnot⟩ := exists_of_mem_result hg hf
    have hh := (mem_fixableFindings.mp hmem).1
    refine ⟨j, h, p, hh, happlied, hp, hdp, ?_⟩
    have hij : j ≠ i := by
      rintro rfl
      exact hnot hmanual hlost happlied
    have hclash := Registry.clashes_triaged hh hf₀ hij
    rw [← hsite, Site.clashes] at hclash
    rcases span_of_mem_planFix hg hmem hp hdp with ⟨hstart, hstop⟩ | hclosing
    · -- an edit inside a place that is apart from this one is of the other kind
      refine Or.inl fun hkind => ?_
      rw [Span.overlaps_mono hover hstart hstop, hkind] at hclash
      simp at hclash
    · exact Or.inr hclosing
  · rw [shownText_eq]
    exact (spliceable_shownEdits hg file write).slice_splice hs fun d hd => by
      have := Span.overlaps_eq_false.mp (hapart d hd)
      omega

/-- A tag with a spread is left to a person, and the colour in it is fixed. -/
theorem manual_untouched_button :
    let rules : List RuleSpec := [.ofTag "button" (.substitution (some "Button") []),
      .ofColor [("#fff", "var(--w)")]]
    let g := Registry.ofRules rules
    let file := Source.ofText "a.tsx" "<button {...x} className=\"bg-[#fff]\"/>".toList
    let es := shownEdits g file .written
    ∃ f ∈ ((review g file).result .fix .written).findings, f.confidence = some .manualReview ∧
      (∀ d ∈ es, d.span.overlaps f.site.span = true → d.Foreign g file f.site) ∧
      (⟨0, 30⟩ : Span).On file.text ∧
      ((review g file).shownText .written).slice (movedSpan es ⟨0, 30⟩) =
        "<button {...x} className=\"bg-[".toList := by
  intro rules g file es
  have hg : Registry.ofConfig (.ofRules rules) = .ok g := rfl
  have hmanual : ∃ f ∈ ((review g file).result .fix .written).findings,
      f.confidence = some .manualReview ∧ (⟨0, 30⟩ : Span).within f.site.span = true := by
    simp only [review, rewrite, acceptFixes, fixableFindings, Registry.findings, planFix,
      planElement, spliceWithin, splice, mergeSort_eq_sortUpTo]
    decide +kernel
  obtain ⟨f, hf, hc, hwithin⟩ := hmanual
  obtain ⟨hforeign, hkept⟩ := manual_untouched hg file .written hf hc
  have hon : (⟨0, 30⟩ : Span).On file.text :=
    ⟨[], "<button {...x} className=\"bg-[".toList, "#fff]\"/>".toList, rfl, rfl⟩
  have hapart : ∀ d ∈ es, d.span.overlaps ⟨0, 30⟩ = false := by
    simp only [es, shownEdits, Review.lost, Review.changed, review, rewrite, acceptFixes,
      fixableFindings, Registry.triaged, Registry.findings, planFix, planElement, spliceWithin,
      splice, mergeSort_eq_sortUpTo]
    decide +kernel
  exact ⟨f, hf, hc, hforeign, hon, hkept _ hon hwithin hapart⟩

end

/-- A run leaves a finding to a person, and its text is not found again. -/
def TouchesManual (g : Registry) (file : Source) : Prop :=
  ∃ f ∈ ((review g file).result .fix .written).findings, f.confidence = some .manualReview ∧
    (∃ d ∈ shownEdits g file .written, d.span.overlaps f.site.span = true) ∧
    ((review g file).shownText .written).slice
      (movedSpan (shownEdits g file .written) f.site.span) ≠ file.text.slice f.site.span

instance (g : Registry) (file : Source) : Decidable (TouchesManual g file) :=
  inferInstanceAs (Decidable (∃ _ ∈ _, _))

/-- What is left to a person is touched by a fix inside of it, by a fix around it, and by the
closing tag of an element in front of it. -/
theorem exists_manual_touched :
    let rename name component := RuleSpec.ofTag name (.substitution (some component) [])
    let remap := RuleSpec.ofTag "button" (.remap "Button" "variant" none [⟨["p"], [], "primary"⟩])
    let color := RuleSpec.ofColor [("#fff", "var(--w)")]
    let file (text : String) := Source.ofText "a.tsx" text.toList
    TouchesManual (.ofRules [rename "button" "Button", color])
        (file "<button {...x} className=\"bg-[#fff]\"/>") ∧
      TouchesManual (.ofRules [remap, color]) (file "<button className=\"p bg-[#fff]\"/>") ∧
      TouchesManual (.ofRules [rename "button" "Button", rename "div" "Div"])
        (file "<button></a <div a=\">\" {...x} b=\"</button>\"/>") := by
  simp only [TouchesManual, shownEdits, Review.shownText, Review.lost, Review.changed, review,
    rewrite, acceptFixes, fixableFindings, Registry.triaged, Registry.findings, planFix,
    planElement, spliceWithin, splice, mergeSort_eq_sortUpTo]
  decide +kernel

end DesignLint
