import DesignLint.Proofs.Fix.Image
import DesignLint.Proofs.Fix.Preserve
import DesignLint.Proofs.Run.Untouched
import DesignLint.Proofs.Value

/-!
# Images of fixed places

What is deleted for a fix holds no angle brackets, attributes of an element that are deleted apart
(`within_or_not_mem`). So no edit crosses an end of a place that is fixed (`respects_of_applied`),
and between its ends there stands after a rewrite what the edits inside of it make of it. This is
the replacement that was planned, unless another edit lies in the opening tag (`image_of_applied`):
the replacement of an element is made with the edits of the element alone (`exists_image_ne`).
-/

namespace DesignLint

open Markup

/-! ### Angle brackets -/

theorem Markup.Ends.exists_bracket {k l : Cursor} {te : TagEnd} (h : Ends k te l)
    (hte : te ≠ .unterminated) : ∃ us, k.Passes (us ++ ['>']) l := by
  cases h with
  | finish hstep =>
    obtain ⟨bs, hbs, -, -⟩ := Cursor.exists_skipWhile isTagBlank k
    have hend := hbs.trans (tagStep_eq_finish.mp hstep)
    split at hend
    · exact ⟨bs ++ ['/'], by simpa using hend⟩
    · exact ⟨bs, hend⟩
  | stuck hstep => exact absurd rfl hte

theorem exists_slice_tag {cs name : Text} {e : Element} (he : e ∈ findElements cs name)
    (hon : e.On cs) (hterm : e.terminated = true) :
    ∃ us, cs.slice e.tag = '<' :: (us ++ ['>']) := by
  obtain ⟨p, m, last, te, htag⟩ := exists_tagIn he
  obtain ⟨us, hus, -⟩ := htag.reads.exists_passes
  obtain ⟨vs, hvs⟩ := htag.ends.exists_bracket (htag.te_ne hterm)
  have hrest : cs.slice ⟨e.name.stop, e.tag.stop⟩ = us ++ (vs ++ ['>']) :=
    htag.passes.upTo_eq.symm.trans (hus.trans hvs).upTo_eq
  obtain ⟨hstart, hstop, hle⟩ := Span.on_iff.mp hon.tag
  obtain ⟨hstart', hstop', hle'⟩ := Span.on_iff.mp hon.name
  have h1 := hon.name_start
  have h2 := hon.name_le
  refine ⟨cs.slice e.name ++ (us ++ vs), ?_⟩
  have hname := Text.slice_append_slice hstart' hstop' hstop hle' h2
  have hopen := Text.slice_append_slice hstart hstart' hstop (by omega) (by omega)
  rw [← hopen, htag.open_eq, ← hname, hrest]
  simp

/-- An edit that deletes no angle bracket crosses no end of an opening tag that has an end. -/
theorem respects_tag {cs name : Text} {e : Element} (he : e ∈ findElements cs name)
    (hon : e.On cs) (hterm : e.terminated = true) {d : Edit} (hd : d.span.On cs)
    (hbare : ∀ b, b = '<' ∨ b = '>' → b ∉ cs.slice d.span) : d.Respects e.tag := by
  obtain ⟨us, hus⟩ := exists_slice_tag he hon hterm
  obtain ⟨as, ds, hcs, hstart, hstop⟩ := hon.tag.slice_eq
  rw [hus] at hcs hstop
  have hopen : cs = as ++ '<' :: (us ++ '>' :: ds) := by simpa using hcs
  have hclose : cs = (as ++ '<' :: us) ++ '>' :: ds := by simpa using hcs
  have hfirst := hd.beside hopen (hbare '<' (Or.inl rfl))
  have hlast := hd.beside hclose (hbare '>' (Or.inr rfl))
  have h1 : '<'.utf8Size = 1 := rfl
  have h2 : '>'.utf8Size = 1 := rfl
  simp only [Text.size_append, Text.size_cons, Text.size_nil, h1, h2] at hfirst hlast hstop
  rw [Edit.Respects, Span.within_iff]
  omega

/-! ### What is deleted -/

theorem ValueContext.mem_read {x : ValueContext} {cs : Text} {b : Char} (hb : b ∈ cs)
    (hne : b ≠ '_') : b ∈ x.read cs := by
  cases x with
  | className => exact List.mem_map.mpr ⟨b, hb, by simp [hne]⟩
  | _ => exact hb

theorem not_mem_of_isLiteral {v : Text} (h : Value.isLiteral v) {b : Char}
    (hb : b = '<' ∨ b = '>') : b ∉ v := by
  intro hmem
  have hblank : ¬ isBlank b := by rcases hb with rfl | rfl <;> decide
  obtain ⟨us, ds, rfl⟩ := List.append_of_mem hmem
  have hinfix : [b] <:+: us ++ b :: ds := ⟨us, ds, by simp⟩
  have htrim := (Text.infix_trim hinfix (by simpa using hblank)).subset (by simp : b ∈ [b])
  have hconst := Value.isConstantChar_of_mem h htrim
  rcases hb with rfl | rfl
  · exact absurd hconst (by decide +kernel)
  · exact absurd hconst (by decide +kernel)

section

variable {c : Config} {g : Registry} {file : Source} {i : Nat} {f : Finding}

/-- What is deleted for a finding lies in its opening tag, or holds no angle brackets. -/
theorem within_or_not_mem (hg : Registry.ofConfig c = .ok g)
    (hmem : (i, f) ∈ fixableFindings (g.triaged file)) {p : FixPlan}
    (hp : planFix g file.text f = .ok p) {d : Edit} (hd : d ∈ p.edits) :
    (∃ e, f.site = .element e ∧ d.span.within e.tag = true) ∨
      ∀ b, b = '<' ∨ b = '>' → b ∉ file.text.slice d.span := by
  obtain ⟨r, hr, hrmem, hsite, hon, ho⟩ := exists_rule_of_mem_fixableFindings hg hmem
  have hspan := span_of_mem_planFix hg hmem hp hd
  rw [planFix_eq hr] at hp
  cases hs : f.site with
  | value v =>
    rw [hs] at hp hon ho
    obtain ⟨_, _, t, -, -, -, rfl⟩ := planValue_eq_ok hp
    rw [List.mem_singleton.mp hd]
    have hlit := obstacle?_value_eq_none ho
    have hwithin : v.Within file.text := hon
    refine Or.inr fun b hb hmem => not_mem_of_isLiteral hlit hb ?_
    rw [hwithin.value_eq]
    exact ValueContext.mem_read hmem (by rcases hb with rfl | rfl <;> decide)
  | element e =>
    rw [hs] at hspan hsite
    rcases hspan with hin | ⟨e', he', hclosing⟩
    · exact Or.inl ⟨e, rfl, Span.within_iff.mpr hin⟩
    · obtain rfl : e = e' := by simpa using he'
      obtain ⟨name, hname, -, hfound⟩ := Rule.element_mem_sites.mp hsite
      refine Or.inr fun b hb hmem => ?_
      rw [slice_closing_of_mem_findElements hfound hclosing] at hmem
      have hchar := isNameChar_of_isTagName (Registry.isTagName_of_ofConfig hg hrmem hname) b hmem
      rcases hb with rfl | rfl
      · exact absurd hchar (by decide)
      · exact absurd hchar (by decide)

/-- **No edit crosses an end of a place that is fixed.** -/
theorem respects_of_applied (hg : Registry.ofConfig c = .ok g) {t : Text}
    (happlied : (i, t) ∈ (rewrite g file.text (g.triaged file)).applied)
    (hf : (g.triaged file)[i]? = some f) {d : Edit}
    (hd : d ∈ (acceptFixes g file.text (g.triaged file)).edits) : d.Respects f.site.span := by
  obtain ⟨hmem, p, hp, -⟩ := exists_plan_of_applied hg happlied hf
  obtain ⟨r, hr, -, hsite, hon, ho⟩ := exists_rule_of_mem_fixableFindings hg hmem
  have hspl := spliceable_acceptFixes hg file
  have hne := hspl.nonempty d hd
  cases hs : f.site with
  | value v =>
    have hplan := hp
    rw [planFix_eq hr, hs] at hplan
    obtain ⟨_, _, t, -, -, -, rfl⟩ := planValue_eq_ok hplan
    by_cases heq : d = ⟨v.span, t⟩
    · exact Or.inl (Span.within_iff.mpr (by simp [heq, Site.span]))
    · have hown := mem_edits_of_applied hg happlied hf hp (List.mem_singleton.mpr rfl)
      exact Or.inr (hspl.apart hd hown heq)
  | element e =>
    rw [hs] at hsite hon ho
    have he : e.On file.text := hon
    obtain ⟨name, -, -, hfound⟩ := Rule.element_mem_sites.mp hsite
    obtain ⟨j, h, q, hjmem, -, hq, hdq⟩ := exists_of_mem_edits hg hd
    rcases within_or_not_mem hg hjmem hq hdq with ⟨e', he', hin⟩ | hbare
    · by_cases hij : i = j
      · subst hij
        have hh := (mem_fixableFindings.mp hjmem).1
        obtain rfl : f = h := Option.some.inj (hf.symm.trans hh)
        obtain rfl : e = e' := by simpa [hs] using he'
        exact Or.inl hin
      · -- the opening tag of another element is apart from this one
        have hclash := Registry.clashes_triaged hf (mem_fixableFindings.mp hjmem).1 hij
        rw [hs, he', Site.clashes] at hclash
        have hapart : e.tag.overlaps e'.tag = false := by
          simpa [Site.isElement, Site.span] using hclash
        have := Span.overlaps_eq_false.mp hapart
        have := Span.within_iff.mp hin
        refine Or.inr ?_
        simp only [Site.span]
        omega
    · exact respects_tag hfound he (obstacle?_element_eq_none ho).1 (hspl.on d hd) hbare

/-- An edit inside a place that is fixed is one of its own edits, or one for another place. -/
theorem mem_or_foreign (hg : Registry.ofConfig c = .ok g) (hf : (g.triaged file)[i]? = some f)
    {p : FixPlan} (hp : planFix g file.text f = .ok p) {d : Edit}
    (hd : d ∈ (acceptFixes g file.text (g.triaged file)).edits)
    (hin : d.span.within f.site.span = true) : d ∈ p.edits ∨ d.Foreign g file f.site := by
  obtain ⟨j, h, q, hjmem, hj, hq, hdq⟩ := exists_of_mem_edits hg hd
  have hh := (mem_fixableFindings.mp hjmem).1
  by_cases hij : i = j
  · subst hij
    obtain rfl : f = h := Option.some.inj (hf.symm.trans hh)
    obtain rfl : p = q := Except.ok.inj (hp.symm.trans hq)
    exact Or.inl hdq
  · refine Or.inr ⟨j, h, q, hh, hj, hq, hdq, ?_⟩
    rcases span_of_mem_planFix hg hjmem hq hdq with hspan | hclosing
    · refine Or.inl fun hkind => ?_
      have hclash := Registry.clashes_triaged hf hh hij
      rw [Site.clashes, hkind] at hclash
      have hapart : f.site.span.overlaps h.site.span = false := by simpa using hclash
      have := Span.overlaps_eq_false.mp hapart
      have := Span.within_iff.mp hin
      have := (spliceable_acceptFixes hg file).nonempty d hd
      omega
    · exact Or.inr hclosing

/-- **A place that is fixed shows its replacement, unless another edit lies in its opening tag.**
Between the ends of the place, moved by all edits, there stands what all edits inside of it make of
it. For a value this is the replacement that was planned, and also for an element, if no value in
its opening tag is fixed and no name in a closing tag is written there. -/
theorem image_of_applied (hg : Registry.ofConfig c = .ok g) (file : Source) {i : Nat} {t : Text}
    {f : Finding} (happlied : (i, t) ∈ (rewrite g file.text (g.triaged file)).applied)
    (hf : (g.triaged file)[i]? = some f) :
    let w := rewrite g file.text (g.triaged file)
    let es := (acceptFixes g file.text (g.triaged file)).edits
    w.text.slice (f.site.span.image es) = spliceWithin file.text f.site.span es ∧
    (w.text.slice (f.site.span.image es) = t ∨ ∃ e, f.site = .element e ∧
      ∃ d ∈ es, d.span.within e.tag ∧ d.Foreign g file f.site) := by
  intro w es
  obtain ⟨hmem, p, hp, rfl⟩ := exists_plan_of_applied hg happlied hf
  obtain ⟨r, hr, -, -, hon, ho⟩ := exists_rule_of_mem_fixableFindings hg hmem
  have hspl : Spliceable file.text es := spliceable_acceptFixes hg file
  have hown : ∀ d ∈ p.edits, d ∈ es := fun d hd => mem_edits_of_applied hg happlied hf hp hd
  have himage : f.site.span.On file.text →
      w.text.slice (f.site.span.image es) = spliceWithin file.text f.site.span es := fun hspan =>
    hspl.slice_image hspan fun d hd => respects_of_applied hg happlied hf hd
  have hplan := hp
  rw [planFix_eq hr] at hplan
  cases hs : f.site with
  | value v =>
    rw [hs] at hplan himage
    obtain ⟨_, _, t, -, -, -, rfl⟩ := planValue_eq_ok hplan
    have hmemOwn : ⟨v.span, t⟩ ∈ es := hown _ (by simp)
    have hshown := himage (hspl.on _ hmemOwn)
    exact ⟨hshown, Or.inl (hshown.trans (hspl.spliceWithin_span hmemOwn))⟩
  | element e =>
    rw [hs] at hplan himage hon ho
    have he : e.On file.text := hon
    have hshown := himage he.tag
    refine ⟨hshown, ?_⟩
    by_cases hall : ∀ d ∈ es, d.span.within e.tag = true → d ∈ p.edits
    · refine Or.inl (hshown.trans ?_)
      rw [(planElement_eq_ok hplan).1]
      exact hspl.spliceWithin_congr (spliceable_of_mem_fixableFindings hg hmem p hp) he.tag
        fun d hd => ⟨fun h => hall d h hd, hown d⟩
    · simp only [not_forall] at hall
      obtain ⟨d, hd, hin, hnot⟩ := hall
      have hforeign := mem_or_foreign hg hf hp hd (by rw [hs]; exact hin)
      rw [hs] at hforeign
      exact Or.inr ⟨e, rfl, d, hd, hin, hforeign.resolve_left hnot⟩

/-- A colour in front of a tag moves it. -/
theorem image_of_applied_button :
    let rules : List RuleSpec := [.ofTag "button" (.substitution (some "Button") []),
      .ofColor [("#fff", "var(--w)")]]
    let g := Registry.ofRules rules
    let file := Source.ofText "a.tsx" "<p className=\"bg-[#fff]\"/><button/>".toList
    let w := rewrite g file.text (g.triaged file)
    let es := (acceptFixes g file.text (g.triaged file)).edits
    (1, "<Button/>".toList) ∈ w.applied ∧ Span.image es ⟨26, 35⟩ = ⟨30, 39⟩ ∧
      w.text.slice ⟨30, 39⟩ = "<Button/>".toList := by
  intro rules g file w es
  have hg : Registry.ofConfig (.ofRules rules) = .ok g := rfl
  have happlied : (1, "<Button/>".toList) ∈ w.applied := by
    simp only [w, rewrite, acceptFixes, fixableFindings, Registry.triaged, Registry.findings,
      planFix, planElement, spliceWithin, splice, mergeSort_eq_sortUpTo]
    decide +kernel
  have hfound : (g.triaged file)[1]?.map (·.site.span) = some ⟨26, 35⟩ := by
    simp only [Registry.triaged, Registry.findings, mergeSort_eq_sortUpTo]
    decide +kernel
  have hmoved : Span.image es ⟨26, 35⟩ = ⟨30, 39⟩ ∧
      spliceWithin file.text ⟨26, 35⟩ es = "<Button/>".toList := by
    simp only [es, acceptFixes, fixableFindings, Registry.triaged, Registry.findings, planFix,
      planElement, spliceWithin, splice, mergeSort_eq_sortUpTo]
    decide +kernel
  obtain ⟨f, hf, hspan⟩ := Option.map_eq_some_iff.mp hfound
  have hshown := (image_of_applied hg file happlied hf).1
  rw [hspan, hmoved.1, hmoved.2] at hshown
  exact ⟨happlied, hmoved.1, hshown⟩

end

/-- A rewrite applies a finding, and something else than its replacement stands there. -/
def MissesReplacement (g : Registry) (file : Source) : Prop :=
  ∃ q ∈ (rewrite g file.text (g.triaged file)).applied, ∃ f ∈ (g.triaged file)[q.1]?,
    (rewrite g file.text (g.triaged file)).text.slice
      (f.site.span.image (acceptFixes g file.text (g.triaged file)).edits) ≠ q.2

instance (g : Registry) (file : Source) : Decidable (MissesReplacement g file) :=
  inferInstanceAs (Decidable (∃ _ ∈ _, _))

/-- The replacement of an element leaves out a colour that is fixed in its opening tag, and the name
of a closing tag that is written there. -/
theorem exists_image_ne :
    let rules : List RuleSpec := [.ofTag "button" (.substitution (some "Button") []),
      .ofTag "div" (.substitution (some "Div") []), .ofColor [("#fff", "var(--w)")]]
    let g := Registry.ofRules rules
    let file (text : String) := Source.ofText "a.tsx" text.toList
    Registry.ofConfig (.ofRules rules) = .ok g ∧
      MissesReplacement g (file "<button className=\"bg-[#fff]\"/>") ∧
      MissesReplacement g (file "<button></a <div a=\">\" b=\"</button>\"/>") := by
  intro rules g file
  refine ⟨rfl, ?_⟩
  simp only [MissesReplacement, rewrite, acceptFixes, fixableFindings, Registry.triaged,
    Registry.findings, planFix, planElement, spliceWithin, splice, mergeSort_eq_sortUpTo]
  decide +kernel

end DesignLint
