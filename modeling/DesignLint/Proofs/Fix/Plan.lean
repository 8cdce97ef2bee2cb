import DesignLint.Proofs.Finding.Triage
import DesignLint.Proofs.Fix.Splice

/-!
# Plans for findings

The plan for an element writes a name, may delete one attribute with the blanks in front of it, and
writes the name in the closing tag (`planElement_eq_ok`); the plan for a value overwrites the value
(`planValue_eq_ok`). So all edits of a plan are on the text, none of them is empty, and no two of
them overlap (`spliceable_of_planFix`).
-/

namespace DesignLint

open Markup

/-! ### Elements -/

theorem closingEdit_eq_ok {e : Element} {component : Text} {closing : List Edit}
    (h : closingEdit e component = .ok closing) :
    (e.selfClosing = true ∧ closing = []) ∨
      (e.selfClosing = false ∧ ∃ s, e.closing = some s ∧ closing = [⟨s, component⟩]) := by
  unfold closingEdit at h
  split_ifs at h with hs
  · cases h
    exact Or.inl ⟨hs, rfl⟩
  · split at h
    · next s hc =>
      cases h
      exact Or.inr ⟨by simpa using hs, s, hc, rfl⟩
    · cases h

/-- What the edits of a plan do to an element: they write `opening` in place of the name, delete the
attribute `dropped`, and write `component` in the closing tag. -/
structure ElementEdits (cs : Text) (e : Element) (opening component : Text)
    (dropped : Option Attribute) (es : List Edit) : Prop where
  dropped_mem : ∀ a ∈ dropped, a ∈ e.attributes
  edits_eq : ∃ closing, closingEdit e component = .ok closing ∧ es = ⟨e.name, opening⟩ ::
    (dropped.map fun a => ⟨withLead cs e.name a.span, []⟩).toList ++ closing

theorem renameEdits_eq_ok {cs : Text} {e : Element} {component : String} {es : List Edit}
    (h : renameEdits e component = .ok es) :
    ElementEdits cs e component.toList component.toList none es := by
  unfold renameEdits at h
  cases hc : closingEdit e component.toList with
  | error x =>
    rw [hc] at h
    cases h
  | ok closing =>
    rw [hc] at h
    cases h
    exact ⟨by simp, closing, hc, rfl⟩

theorem remapEdits_eq_ok {cs : Text} {e : Element} {component target : String}
    {fallback : Option String} {ms : List VariantMapping} {es : List Edit}
    (h : remapEdits cs e component target fallback ms = .ok es) :
    ∃ value, e.attribute? target = none ∧
      resolveVariant (e.valueOf? classAttribute) fallback ms = .ok value ∧
      ElementEdits cs e (openingText component target value) component.toList
        (e.attribute? classAttribute) es := by
  unfold remapEdits at h
  split_ifs at h with ht
  · cases h
  rw [Option.not_isSome_iff_eq_none] at ht
  cases hv : resolveVariant (e.valueOf? classAttribute) fallback ms with
  | error x =>
    rw [hv] at h
    cases h
  | ok value =>
    simp only [hv, bind, Except.bind, pure, Except.pure] at h
    cases hc : closingEdit e component.toList with
    | error x =>
      rw [hc] at h
      cases h
    | ok closing =>
      rw [hc] at h
      cases h
      exact ⟨value, ht, rfl, fun a ha => List.mem_of_find?_eq_some ha, closing, hc, rfl⟩

/-- **The plan for an element.** -/
theorem planElement_eq_ok {cs : Text} {e : Element} {fix : Autofix} {p : FixPlan}
    (h : planElement cs e fix = .ok p) : p.replacement = spliceWithin cs e.tag p.edits ∧
    ((∃ component, fix = .rename component ∧
        ElementEdits cs e component.toList component.toList none p.edits) ∨
      ∃ component target fallback ms value, fix = .remap component target fallback ms ∧
        e.attribute? target = none ∧
        resolveVariant (e.valueOf? classAttribute) fallback ms = .ok value ∧
        ElementEdits cs e (openingText component target value) component.toList
          (e.attribute? classAttribute) p.edits) := by
  unfold planElement at h
  cases fix with
  | none => cases h
  | substitute tokens => cases h
  | rename component =>
    simp only at h
    cases hes : renameEdits e component with
    | error x =>
      rw [hes] at h
      cases h
    | ok es =>
      rw [hes] at h
      cases h
      exact ⟨rfl, Or.inl ⟨component, rfl, renameEdits_eq_ok hes⟩⟩
  | remap component target fallback ms =>
    simp only at h
    cases hes : remapEdits cs e component target fallback ms with
    | error x =>
      rw [hes] at h
      cases h
    | ok es =>
      rw [hes] at h
      cases h
      obtain ⟨value, ht, hv, hedits⟩ := remapEdits_eq_ok hes
      exact ⟨rfl, Or.inr ⟨component, target, fallback, ms, value, rfl, ht, hv, hedits⟩⟩

/-- What is deleted with an attribute: the blanks in front of it, as far as the name. -/
theorem exists_withLead {cs : Text} {s : Span} (name : Span) (hs : cs.Boundary s.start) :
    ∃ us bs, cs.takeBytes s.start = us ++ bs ∧ Blanks bs ∧ (∀ c ∈ us.getLast?, ¬ isTagBlank c) ∧
      withLead cs name s = ⟨max us.size name.stop, s.stop⟩ := by
  have hb : Blanks ((cs.takeBytes s.start).reverse.takeWhile isTagBlank).reverse := fun c hc =>
    List.mem_takeWhile_imp (List.mem_reverse.mp hc)
  have hsplit : cs.takeBytes s.start = ((cs.takeBytes s.start).reverse.dropWhile isTagBlank).reverse ++
      ((cs.takeBytes s.start).reverse.takeWhile isTagBlank).reverse := by
    rw [← List.reverse_append, List.takeWhile_append_dropWhile, List.reverse_reverse]
  refine ⟨_, _, hsplit, hb, fun c hc => ?_, ?_⟩
  · rw [List.getLast?_reverse, Option.mem_def] at hc
    have hne := List.head?_dropWhile_not isTagBlank (cs.takeBytes s.start).reverse
    rw [hc] at hne
    simpa using hne
  · have hsize := congrArg Text.size hsplit
    rw [Text.size_takeBytes hs, Text.size_append, hb.size_eq, List.length_reverse] at hsize
    rw [withLead, Span.mk.injEq]
    exact ⟨by omega, rfl⟩

theorem withLead_spec {cs : Text} {e : Element} (he : e.On cs) {a : Attribute}
    (ha : a ∈ e.attributes) : (withLead cs e.name a.span).On cs ∧
      e.name.stop ≤ (withLead cs e.name a.span).start ∧
      (withLead cs e.name a.span).start ≤ a.span.start ∧
      (withLead cs e.name a.span).stop = a.span.stop := by
  obtain ⟨hon, hname, -, -⟩ := he.attributes a ha
  obtain ⟨hstart, hstop, hle⟩ := Span.on_iff.mp hon
  obtain ⟨us, bs, htake, -, -, hlead⟩ := exists_withLead e.name hstart
  have hsize := Text.size_takeBytes hstart
  have hus : cs.Boundary us.size := by
    refine ⟨us, bs ++ cs.dropBytes a.span.start, ?_, rfl⟩
    rw [← List.append_assoc, ← htake, Text.take_append_drop hstart]
  rw [htake, Text.size_append] at hsize
  have hmax : cs.Boundary (max us.size e.name.stop) := by
    rcases Nat.le_total us.size e.name.stop with h | h
    · rw [Nat.max_eq_right h]
      exact (Span.on_iff.mp he.name).2.1
    · rwa [Nat.max_eq_left h]
  rw [hlead]
  exact ⟨Span.on_iff.mpr ⟨hmax, hstop, by simp only; omega⟩, Nat.le_max_right _ _,
    by simp only; omega, rfl⟩

namespace ElementEdits

variable {cs : Text} {e : Element} {opening component : Text} {dropped : Option Attribute}
  {es : List Edit}

/-- An edit of an element writes its name, deletes in its opening tag, or writes the name in its
closing tag. -/
theorem cases_mem (h : ElementEdits cs e opening component dropped es) {d : Edit} (hd : d ∈ es) :
    d = ⟨e.name, opening⟩ ∨ (∃ a ∈ dropped, d = ⟨withLead cs e.name a.span, []⟩) ∨
      ∃ s ∈ e.closing, d = ⟨s, component⟩ := by
  obtain ⟨closing, hc, rfl⟩ := h.edits_eq
  rcases List.mem_append.mp hd with hd | hd
  · rcases List.mem_cons.mp hd with hd | hd
    · exact Or.inl hd
    · simp only [Option.mem_toList, Option.map_eq_some_iff] at hd
      obtain ⟨a, ha, rfl⟩ := hd
      exact Or.inr (Or.inl ⟨a, ha, rfl⟩)
  · rcases closingEdit_eq_ok hc with ⟨-, rfl⟩ | ⟨-, s, hs, rfl⟩
    · simp at hd
    · exact Or.inr (Or.inr ⟨s, hs, List.mem_singleton.mp hd⟩)

/-- **The edits of an element can be carried out together.** -/
theorem spliceable (h : ElementEdits cs e opening component dropped es) (he : e.On cs) :
    Spliceable cs es where
  on d hd := by
    rcases h.cases_mem hd with rfl | ⟨a, ha, rfl⟩ | ⟨s, hs, rfl⟩
    · exact he.name
    · exact (withLead_spec he (h.dropped_mem a ha)).1
    · exact (he.closing s hs).1
  nonempty d hd := by
    rcases h.cases_mem hd with rfl | ⟨a, ha, rfl⟩ | ⟨s, hs, rfl⟩
    · exact he.name_lt
    · have h1 := withLead_spec he (h.dropped_mem a ha)
      have h2 := he.attributes a (h.dropped_mem a ha)
      simp only
      omega
    · exact (he.closing s hs).2.1
  disjoint := by
    obtain ⟨closing, hc, rfl⟩ := h.edits_eq
    have hname := he.name_le
    have hclosing : ∀ d ∈ closing, e.tag.stop ≤ d.span.start := by
      rcases closingEdit_eq_ok hc with ⟨-, rfl⟩ | ⟨-, s, hs, rfl⟩
      · simp
      · intro d hd
        rw [List.mem_singleton.mp hd]
        exact (he.closing s hs).2.2
    have hone : closing.Pairwise fun a b => a.span.overlaps b.span = false := by
      rcases closingEdit_eq_ok hc with ⟨-, rfl⟩ | ⟨-, s, hs, rfl⟩
      · exact .nil
      · exact List.pairwise_singleton _ _
    cases dropped with
    | none =>
      refine .cons (fun d hd => Span.overlaps_eq_false.mpr ?_) hone
      have := hclosing d hd
      simp only
      omega
    | some a =>
      obtain ⟨-, h1, -, h2⟩ := withLead_spec he (h.dropped_mem a rfl)
      have h3 := he.attributes a (h.dropped_mem a rfl)
      refine .cons (fun d hd => Span.overlaps_eq_false.mpr ?_)
        (.cons (fun d hd => Span.overlaps_eq_false.mpr ?_) hone)
      · rcases List.mem_cons.mp hd with rfl | hd
        · exact Or.inr h1
        · have := hclosing d hd
          simp only
          omega
      · have := hclosing d hd
        simp only
        omega

end ElementEdits

theorem exists_edits_of_planElement {cs : Text} {e : Element} {fix : Autofix} {p : FixPlan}
    (h : planElement cs e fix = .ok p) :
    ∃ opening component dropped, ElementEdits cs e opening component dropped p.edits := by
  rcases (planElement_eq_ok h).2 with ⟨_, -, h⟩ | ⟨_, _, _, _, _, -, -, -, h⟩
  · exact ⟨_, _, _, h⟩
  · exact ⟨_, _, _, h⟩

/-! ### Values -/

/-- **The plan for a value.** -/
theorem planValue_eq_ok {v : ValueSite} {fix : Autofix} {p : FixPlan}
    (h : planValue v fix = .ok p) : ∃ tokens token t, fix = .substitute tokens ∧
      tokens.lookup (Value.normalize v.value) = some token ∧ tokenText token v.context = .ok t ∧
      p = ⟨[⟨v.span, t⟩], t⟩ := by
  unfold planValue at h
  split at h
  · next tokens =>
    split at h
    · cases h
    · next token hl =>
      cases ht : tokenText token v.context with
      | error x =>
        rw [ht] at h
        cases h
      | ok t =>
        rw [ht] at h
        cases h
        exact ⟨tokens, token, t, rfl, hl, ht, rfl⟩
  · cases h

theorem exists_token_of_planValue {v : ValueSite} {r : Rule} {p : FixPlan}
    (h : planValue v r.autofix = .ok p) :
    ∃ token ∈ r.tokens, ∃ t, tokenText token v.context = .ok t ∧ p = ⟨[⟨v.span, t⟩], t⟩ := by
  obtain ⟨tokens, token, t, hfix, hlook, ht, rfl⟩ := planValue_eq_ok h
  obtain ⟨l₁, l₂, rfl, -⟩ := List.lookup_eq_some_iff.mp hlook
  exact ⟨token, by simp [Rule.tokens, hfix], t, ht, rfl⟩

/-- What is written around a token. -/
def ValueContext.quotes : ValueContext → Text
  | .inlineNumber => ['"']
  | _ => []

/-- What is written for a value, to be read back. -/
def ValueContext.write : ValueContext → Text → Text
  | .className, t => Value.toClassName t
  | _, t => t

theorem ValueContext.quotes_eq (x : ValueContext) : x.quotes = [] ∨ x.quotes = ['"'] := by
  cases x <;> simp [quotes]

theorem tokenText_eq {token : String} {x : ValueContext} {t : Text}
    (h : tokenText token x = .ok t) :
    t = x.quotes ++ x.write token.toList ++ x.quotes := by
  cases x <;> cases h <;> simp [ValueContext.quotes, ValueContext.write]

/-! ### Findings -/

theorem planFix_eq {g : Registry} {f : Finding} {r : Rule} (hr : g.rule? f.rule = some r)
    (cs : Text) : planFix g cs f =
      match f.site with
      | .element e => planElement cs e r.autofix
      | .value v => planValue v r.autofix := by
  unfold planFix
  cases f.site <;> simp only [hr]

/-- **The edits of a plan can be carried out together.** -/
theorem spliceable_of_planFix {g : Registry} {cs : Text} {f : Finding} {r : Rule} {p : FixPlan}
    (hr : g.rule? f.rule = some r) (hon : f.site.On cs) (ho : obstacle? r f.site = none)
    (h : planFix g cs f = .ok p) : Spliceable cs p.edits := by
  rw [planFix_eq hr] at h
  split at h
  · next e hs =>
    rw [hs] at hon
    obtain ⟨_, _, _, hedits⟩ := exists_edits_of_planElement h
    exact hedits.spliceable hon
  · next v hs =>
    rw [hs] at hon ho
    obtain ⟨_, _, t, -, -, -, rfl⟩ := planValue_eq_ok h
    have hne := ne_nil_of_isLiteral (obstacle?_value_eq_none ho)
    have hv : v.On cs := ValueSite.Within.on hon hne
    refine ⟨fun d hd => ?_, fun d hd => ?_, List.pairwise_singleton _ _⟩
    · rw [List.mem_singleton.mp hd]
      exact hv.span
    · rw [List.mem_singleton.mp hd]
      exact hv.lt hne

end DesignLint
