import DesignLint.Proofs.Fix.Plan
import DesignLint.Proofs.Fix.Variant
import DesignLint.Proofs.Rule.Sample

/-!
# Why plans fail

Triage and planning agree on what can be fixed: a plan for a finding without obstacle fails only if
the configuration does not settle what to write (`FixFailure.Unsettled`), never because the fix does
not fit the place or a closing tag is missing (`planFix_eq_error`). The class names of such an
element are a constant (`resolveVariant_eq_error`), and it has a closing tag if it needs one
(`closingEdit_ne_error`); such a value is no expression (`tokenText_eq_error`).
-/

namespace DesignLint

/-- Failures in which the configuration does not settle what to write: it says nothing about a
value, or too much, or something that the element says already. -/
inductive FixFailure.Unsettled : FixFailure → Prop
  | noVariantMapping (classes : String) : Unsettled (.noVariantMapping classes)
  | ambiguousVariant (candidates : List String) : Unsettled (.ambiguousVariant candidates)
  | noTokenMapping (value : String) : Unsettled (.noTokenMapping value)
  | conflictingAttribute (name : String) : Unsettled (.conflictingAttribute name)

/-! ### Elements -/

/-- There is no closing tag to edit only if none was found. -/
theorem closingEdit_eq_error {e : Element} {component : Text} {x : FixFailure}
    (h : closingEdit e component = .error x) : e.selfClosing = false ∧ e.closing = none := by
  unfold closingEdit at h
  split_ifs at h with hs
  split at h
  · cases h
  · next hc => exact ⟨by simpa using hs, hc⟩

theorem closingEdit_ne_error {cs name component : Text} {e : Element} {x : FixFailure}
    (he : e ∈ Markup.findElements cs name) (ho : elementObstacle? e = none) :
    closingEdit e component ≠ .error x := by
  intro h
  obtain ⟨hterminated, -, -, -, hchildren⟩ := elementObstacle?_eq_none.mp ho
  obtain ⟨hself, hnone⟩ := closingEdit_eq_error h
  have hunclosed : e.children ≠ .unclosed := by
    intro hc
    rw [childrenObstacle?, hc] at hchildren
    cases hchildren
  have hsome := Markup.isSome_closing_of_mem_findElements he hterminated hself hunclosed
  rw [hnone] at hsome
  cases hsome

theorem variantOf_eq_error {value : Text} {ms : List VariantMapping} {x : FixFailure}
    (h : variantOf value ms = .error x) : x.Unsettled := by
  rcases variantOf_cases value ms with ⟨-, _, hv⟩ | ⟨-, ⟨-, _, hv⟩ | ⟨v, -, hv⟩ | ⟨-, hv⟩⟩
  · rw [hv] at h
    cases h
    exact .noVariantMapping _
  · rw [hv] at h
    cases h
    exact .noVariantMapping _
  · rw [hv] at h
    cases h
  · rw [hv] at h
    cases h
    exact .ambiguousVariant _

/-- Class names without obstacle are a constant, of which a variant is made unless the mappings say
otherwise. -/
theorem resolveVariant_eq_error {e : Element} {fallback : Option String} {ms : List VariantMapping}
    {x : FixFailure} (ho : elementObstacle? e = none)
    (h : resolveVariant (e.valueOf? classAttribute) fallback ms = .error x) : x.Unsettled := by
  obtain ⟨-, hspreads, hclass, -⟩ := elementObstacle?_eq_none.mp ho
  unfold classObstacle? at hclass
  cases hv : e.valueOf? classAttribute with
  | none =>
    rw [hv] at h
    cases fallback with
    | none =>
      cases h
      exact .noVariantMapping _
    | some v => cases h
  | some value =>
    rw [hv] at h hclass
    cases value with
    | literal source => exact variantOf_eq_error h
    | template source => cases hclass
    | expression source => cases hclass
    | flag =>
      rw [resolveVariant] at h
      exact variantOf_eq_error h
    | spread source =>
      obtain ⟨a, ha, hsource⟩ := Option.map_eq_some_iff.mp hv
      have hnot := List.any_eq_false.mp hspreads a (List.mem_of_find?_eq_some ha)
      rw [hsource] at hnot
      exact absurd rfl hnot

theorem renameEdits_eq_error {e : Element} {component : String} {x : FixFailure}
    (h : renameEdits e component = .error x) : closingEdit e component.toList = .error x := by
  unfold renameEdits at h
  cases hc : closingEdit e component.toList with
  | error y =>
    rw [hc] at h
    cases h
    rfl
  | ok closing =>
    rw [hc] at h
    cases h

theorem remapEdits_eq_error {cs : Text} {e : Element} {component target : String}
    {fallback : Option String} {ms : List VariantMapping} {x : FixFailure}
    (h : remapEdits cs e component target fallback ms = .error x) :
    x = .conflictingAttribute target ∨
      resolveVariant (e.valueOf? classAttribute) fallback ms = .error x ∨
      closingEdit e component.toList = .error x := by
  unfold remapEdits at h
  split_ifs at h with ht
  · cases h
    exact Or.inl rfl
  · cases hv : resolveVariant (e.valueOf? classAttribute) fallback ms with
    | error y =>
      rw [hv] at h
      cases h
      exact Or.inr (Or.inl rfl)
    | ok value =>
      simp only [hv, bind, Except.bind, pure, Except.pure] at h
      cases hc : closingEdit e component.toList with
      | error y =>
        rw [hc] at h
        cases h
        exact Or.inr (Or.inr rfl)
      | ok closing =>
        rw [hc] at h
        cases h

/-- **The plan for an element without obstacle fails only if the configuration does not settle
it.** -/
theorem planElement_eq_error {cs name : Text} {tag : String} {e : Element} {fix : Autofix}
    {x : FixFailure} (he : e ∈ Markup.findElements cs name) (ho : elementObstacle? e = none)
    (hadmits : (Pattern.tag tag).admits fix) (hfix : fix ≠ .none)
    (h : planElement cs e fix = .error x) : x.Unsettled := by
  unfold planElement at h
  cases fix with
  | none => exact absurd rfl hfix
  | substitute tokens => cases hadmits
  | rename component =>
    cases hes : renameEdits e component with
    | error y => exact absurd (renameEdits_eq_error hes) (closingEdit_ne_error he ho)
    | ok es =>
      simp only [hes] at h
      cases h
  | remap component target fallback ms =>
    cases hes : remapEdits cs e component target fallback ms with
    | error y =>
      simp only [hes] at h
      cases h
      rcases remapEdits_eq_error hes with rfl | hv | hc
      · exact .conflictingAttribute _
      · exact resolveVariant_eq_error ho hv
      · exact absurd hc (closingEdit_ne_error he ho)
    | ok es =>
      simp only [hes] at h
      cases h

/-! ### Values -/

/-- A token can be written unless it would have to stand in an expression. -/
theorem tokenText_eq_error {token : String} {context : ValueContext} {x : FixFailure}
    (h : tokenText token context = .error x) :
    context = .inlineExpression ∨ context = .inlineTemplate := by
  cases context <;> simp_all [tokenText]

/-- **The plan for a value without obstacle fails only if the configuration does not settle it.** -/
theorem planValue_eq_error {v : ValueSite} {p : Pattern} {fix : Autofix} {x : FixFailure}
    (hv : v.context = .inlineTemplate → Text.has "$\x7b".toList v.value)
    (ho : valueObstacle? v = none) (hp : ∀ tag, p ≠ .tag tag) (hadmits : p.admits fix)
    (hfix : fix ≠ .none) (h : planValue v fix = .error x) : x.Unsettled := by
  obtain ⟨hplain, hexpression, -⟩ := valueObstacle?_eq_none.mp ho
  obtain ⟨tokens, rfl⟩ : ∃ tokens, fix = .substitute tokens := by
    cases p <;> cases fix <;> simp_all [Pattern.admits]
  simp only [planValue] at h
  split at h
  · cases h
    exact .noTokenMapping _
  · next token hl =>
    cases ht : tokenText token v.context with
    | error y =>
      rcases tokenText_eq_error ht with hc | hc
      · exact absurd hc hexpression
      · exact absurd (hv hc) hplain
    | ok t =>
      rw [ht] at h
      cases h

/-! ### Findings -/

/-- **A plan for a finding that can be fixed fails only if the configuration does not settle
it.** -/
theorem planFix_eq_error {c : Config} {g : Registry} {file : Source} {f : Finding} {r : Rule}
    {x : FixFailure} (hg : Registry.ofConfig c = .ok g) (hf : f ∈ g.findings file)
    (hr : g.rule? f.rule = some r) (hc : (triage r f.site).confidence = .autoFixable)
    (h : planFix g file.text f = .error x) : x.Unsettled := by
  obtain ⟨r', hr', hmem, hsite, -, -⟩ := Registry.on_of_mem_findings hg hf
  obtain rfl : r' = r := Option.some.inj (hr'.symm.trans hr)
  have hadmits := Registry.admits_of_ofConfig hg hmem
  have ho : obstacle? r' f.site = none := by
    by_contra hne
    obtain ⟨o, ho⟩ := Option.ne_none_iff_exists'.mp hne
    rw [triage, ho] at hc
    cases hc
  rw [planFix_eq hr] at h
  cases hs : f.site with
  | element e =>
    rw [hs] at hsite ho h
    rw [obstacle?, Option.orElse_eq_orElse, Option.orElse_eq_or, Option.or_eq_none_iff] at ho
    obtain ⟨name, hp, -, he⟩ := Rule.element_mem_sites.mp hsite
    rw [hp] at hadmits
    exact planElement_eq_error he ho.1 hadmits (Rule.obstacle?_eq_none.mp ho.2) h
  | value v =>
    rw [hs] at hsite ho h
    rw [obstacle?, Option.orElse_eq_orElse, Option.orElse_eq_or, Option.or_eq_none_iff] at ho
    have hfix := Rule.obstacle?_eq_none.mp ho.2
    rcases Rule.value_mem_sites.mp hsite with ⟨p, hp, hv, -⟩ | ⟨re, hp, hv, -⟩
    · rw [hp] at hadmits
      exact planValue_eq_error (p.has_of_mem_sites hv) ho.1 (by simp) hadmits hfix h
    · have hraw := (Regex.within_of_mem_sites hv).2
      rw [hp] at hadmits
      exact planValue_eq_error (by simp [hraw]) ho.1 (by simp) hadmits hfix h

/-- Class names for which there is no mapping. -/
theorem planFix_eq_error_unmapped :
    let g := Registry.ofRules
      [.ofTag "button" (.remap "Button" "variant" none [⟨["bg-p"], [], "primary"⟩])]
    let file := Source.ofText "a.tsx" "<button className=\"plain\"/>".toList
    ∃ f ∈ g.findings file, ∃ r, g.rule? f.rule = some r ∧
      (triage r f.site).confidence = .autoFixable ∧
      planFix g file.text f = .error (.noVariantMapping "plain") ∧
      (FixFailure.noVariantMapping "plain").Unsettled := by
  intro g file
  have hg : Registry.ofConfig (.ofRules
      [.ofTag "button" (.remap "Button" "variant" none [⟨["bg-p"], [], "primary"⟩])]) = .ok g := rfl
  have hfound : ∃ f ∈ g.findings file, ∃ r ∈ g.rule? f.rule,
      (triage r f.site).confidence = .autoFixable ∧
      planFix g file.text f = .error (.noVariantMapping "plain") := by
    simp only [Registry.findings, planFix, planElement, spliceWithin, splice, mergeSort_eq_sortUpTo]
    decide +kernel
  obtain ⟨f, hf, r, hr, hc, hplan⟩ := hfound
  exact ⟨f, hf, r, hr, hc, hplan, planFix_eq_error hg hf hr hc hplan⟩

end DesignLint
