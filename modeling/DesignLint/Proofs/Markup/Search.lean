import DesignLint.Markup.Search
import DesignLint.Proofs.Markup.OpeningTag

/-!
# Where elements are

`findElements` reads an opening tag at every `<` that is followed by the name (`mem_findElements`),
and looks for the closing tag behind it (`findClosing_eq_some`). So all spans of an element lie on
the text: the name follows the `<`, the attributes lie between the name and the end of the tag, and
the closing tag lies behind it (`Element.On`, `on_of_mem_findElements`). The name is the one that
was looked for (`exists_name_of_mem_findElements`).
-/

namespace DesignLint

/-- The spans of an element lie on a text, one behind the other. -/
structure Element.On (cs : Text) (e : Element) : Prop where
  tag : e.tag.On cs
  name : e.name.On cs
  name_start : e.name.start = e.tag.start + 1
  name_lt : e.name.start < e.name.stop
  name_le : e.name.stop ≤ e.tag.stop
  attributes : ∀ a ∈ e.attributes, a.span.On cs ∧ e.name.stop ≤ a.span.start ∧
    a.span.start < a.span.stop ∧ a.span.stop ≤ e.tag.stop
  closing : ∀ s ∈ e.closing, s.On cs ∧ s.start < s.stop ∧ e.tag.stop ≤ s.start

namespace Markup

/-! ### Points looked at -/

theorem mem_occurrences {lead cs : Text} {busy o : Nat} {before b : Option Char} {k : Cursor}
    (h : (b, k) ∈ occurrences lead busy before o cs) :
    lead <+: k.rest ∧ ∃ us, Cursor.Passes ⟨o, cs⟩ us k := by
  induction cs generalizing busy before o with
  | nil => simp [occurrences] at h
  | cons c cs ih =>
    have hrest : ∀ {busy}, (b, k) ∈ occurrences lead busy (some c) (o + c.utf8Size) cs →
        lead <+: k.rest ∧ ∃ us, Cursor.Passes ⟨o, c :: cs⟩ us k := by
      intro busy hmem
      obtain ⟨hl, us, hus⟩ := ih hmem
      exact ⟨hl, _, passes_cons hus⟩
    cases busy with
    | succ busy => exact hrest h
    | zero =>
      simp only [occurrences] at h
      split at h
      · next hp =>
        rcases List.mem_cons.mp h with heq | h
        · cases heq
          exact ⟨List.isPrefixOf_iff_prefix.mp hp, [], .refl _⟩
        · exact hrest h
      · exact hrest h

theorem before_of_mem_occurrences {lead cs : Text} {busy o : Nat} {before b : Option Char}
    {k : Cursor} (h : (b, k) ∈ occurrences lead busy before o cs) :
    (b = before ∧ k = ⟨o, cs⟩) ∨
      ∃ c l us, b = some c ∧ Cursor.Passes ⟨o, cs⟩ us l ∧ l.Passes [c] k := by
  induction cs generalizing busy before o with
  | nil => simp [occurrences] at h
  | cons c cs ih =>
    have hrest : ∀ {busy}, (b, k) ∈ occurrences lead busy (some c) (o + c.utf8Size) cs →
        ∃ d l us, b = some d ∧ Cursor.Passes ⟨o, c :: cs⟩ us l ∧ l.Passes [d] k := by
      intro busy hmem
      rcases ih hmem with ⟨hb, rfl⟩ | ⟨d, l, us, hb, hus, hd⟩
      · exact ⟨c, _, [], hb, .refl _, Cursor.passes_one o c cs⟩
      · exact ⟨d, l, _, hb, passes_cons hus, hd⟩
    cases busy with
    | succ busy => exact Or.inr (hrest h)
    | zero =>
      simp only [occurrences] at h
      split at h
      · rcases List.mem_cons.mp h with heq | h
        · cases heq
          exact Or.inl ⟨rfl, rfl⟩
        · exact Or.inr (hrest h)
      · exact Or.inr (hrest h)

/-! ### Closing tags -/

theorem closesTag?_eq_some {name : Text} {k next : Cursor} {s : Span}
    (h : closesTag? name k = some (s, next)) : ∃ l us, k.Passes ('<' :: '/' :: name) l ∧
      s = ⟨k.offset + 2, l.offset⟩ ∧ l.Passes us next := by
  simp only [closesTag?, Option.bind_eq_bind, Option.bind_eq_some_iff, Option.pure_def,
    Option.some.injEq, Prod.mk.injEq] at h
  obtain ⟨l, hl, m, hm, rfl, rfl⟩ := h
  obtain ⟨us, hus, -, -⟩ := Cursor.exists_skipWhile isBlank l
  exact ⟨l, _, Cursor.skipText_passes hl, rfl, hus.trans (Cursor.skipText_passes hm)⟩

theorem length_lt_of_passes {us : Text} {k l : Cursor} (h : k.Passes us l) (hne : us ≠ []) :
    l.rest.length < k.rest.length := by
  have := List.length_pos_of_ne_nil hne
  rw [h.1, List.length_append]
  omega

theorem findClosing_eq_some {name : Text} {fuel depth : Nat} {k lt : Cursor} {s : Span}
    (h : findClosing name fuel depth k = some (s, lt)) : ∃ us l, k.Passes us lt ∧
      lt.Passes ('<' :: '/' :: name) l ∧ s = ⟨lt.offset + 2, l.offset⟩ := by
  induction fuel generalizing depth k with
  | zero => cases h
  | succ fuel ih =>
    have hrest : ∀ {us : Text} {m : Cursor} {depth : Nat}, k.Passes us m →
        findClosing name fuel depth m = some (s, lt) → ∃ us l, k.Passes us lt ∧
          lt.Passes ('<' :: '/' :: name) l ∧ s = ⟨lt.offset + 2, l.offset⟩ := by
      intro us m depth hm hf
      obtain ⟨vs, l, hvs, hl, hs⟩ := ih hf
      exact ⟨_, l, hm.trans hvs, hl, hs⟩
    rw [findClosing] at h
    split at h
    · cases h
    · next lt' hfind =>
      obtain ⟨us, hus, -, -⟩ := Cursor.find_eq_some.mp hfind
      split at h
      · next s' next hcl =>
        obtain ⟨l, vs, hl, rfl, hvs⟩ := closesTag?_eq_some hcl
        split at h
        · cases h
          exact ⟨us, l, hus, hl, rfl⟩
        · exact hrest (hus.trans (hl.trans hvs)) h
      · split_ifs at h with hop
        · split at h
          · next e next hread =>
            obtain ⟨p, m, te, htag⟩ := readOpeningTag_eq_some.mp hread
            obtain ⟨vs, -, hvs⟩ := htag.exists_passes_all
            split_ifs at h
            · exact hrest (hus.trans hvs) h
            · exact hrest (hus.trans hvs) h
          · cases h
        · exact hrest (hus.trans (Cursor.skip_passes 1 lt')) h

/-! ### Children -/

theorem exists_passes_of_childStep {o : Nat} {c : Char} {cs : Text} {next : Cursor}
    (h : childStep ⟨o, c :: cs⟩ = .ok next) :
    ∃ us, us ≠ [] ∧ Cursor.Passes ⟨o, c :: cs⟩ us next := by
  have hskip : ∀ n, ∃ us, us ≠ [] ∧
      Cursor.Passes ⟨o, c :: cs⟩ us (Cursor.skip (n + 1) ⟨o, c :: cs⟩) :=
    fun n => ⟨_, by simp, Cursor.skip_passes (n + 1) ⟨o, c :: cs⟩⟩
  simp only [childStep] at h
  split_ifs at h with hopen hclose hlt
  · split at h
    · next hend =>
      cases h
      rw [beq_iff_eq] at hopen
      subst hopen
      obtain ⟨e, -, hp⟩ := expressionEnd_cons.mp hend
      exact ⟨_, by simp, hp⟩
    · cases h
  · split at h
    · cases h
      exact hskip 0
    · split_ifs at h
      · split at h
        · next m hfind =>
          cases h
          obtain ⟨us, hus, ⟨ds, hds⟩, -⟩ := Cursor.find_eq_some.mp hfind
          exact ⟨_, by simp [← hds], hus.trans (Cursor.skip_passes 1 m)⟩
        · cases h
      · cases h
        exact hskip 1
      · split at h
        · next hread =>
          split_ifs at h
          cases h
          obtain ⟨p, m, te, htag⟩ := readOpeningTag_eq_some.mp hread
          exact htag.exists_passes_all
        · cases h
      · cases h
        exact hskip 0
  · cases h
    exact hskip 0

/-! ### Elements -/

theorem mem_findElements {cs name : Text} {e : Element} (h : e ∈ findElements cs name) :
    ∃ k l e', k.In cs ∧ ('<' :: name) <+: k.rest ∧
      ((k.rest.drop 1).drop name.length).head?.any endsTagName ∧
      readOpeningTag k = some (e', l) ∧ e = withClosing name e' l := by
  obtain ⟨⟨before, k⟩, hmem, helem⟩ := List.mem_filterMap.mp h
  obtain ⟨hl, hus⟩ := mem_occurrences hmem
  simp only [elementAt?] at helem
  split_ifs at helem with hc
  simp only [Bool.or_eq_true, not_or, Bool.not_eq_true', Bool.not_eq_false] at hc
  obtain ⟨⟨e', l⟩, hread, rfl⟩ := Option.map_eq_some_iff.mp helem
  have hopens := hc.1.2
  simp only [opensTag, Bool.and_eq_true] at hopens
  exact ⟨k, l, e', hus, hl, hopens.2, hread, rfl⟩

theorem closing_withClosing {name : Text} {e : Element} {k : Cursor} {s : Span}
    (he : e.closing = none) (h : s ∈ (withClosing name e k).closing) :
    ∃ lt, findClosing name (k.rest.length + 1) 0 k = some (s, lt) := by
  unfold withClosing at h
  split at h
  · split at h
    · next s' lt hf =>
      obtain rfl : s' = s := by simpa using h
      exact ⟨lt, hf⟩
    · simp [he] at h
  · simp [he] at h

/-- Looking for the closing tag leaves the opening tag alone. -/
theorem withClosing_eq (name : Text) (e : Element) (k : Cursor) :
    (withClosing name e k).tag = e.tag ∧ (withClosing name e k).name = e.name ∧
      (withClosing name e k).attributes = e.attributes ∧
      (withClosing name e k).selfClosing = e.selfClosing ∧
      (withClosing name e k).terminated = e.terminated := by
  unfold withClosing
  split
  · split <;> simp
  · simp

/-- **All spans of an element lie on the text.** -/
theorem on_of_mem_findElements {cs name : Text} (hname : name ≠ []) {e : Element}
    (h : e ∈ findElements cs name) : e.On cs := by
  obtain ⟨k, l, e', hk, -, -, hread, rfl⟩ := mem_findElements h
  obtain ⟨p, m, te, htag⟩ := readOpeningTag_eq_some.mp hread
  obtain ⟨htagOn, hnameOn, hattrOn, hl⟩ := htag.on hk
  obtain ⟨h1, h2, h3, h4⟩ := htag.spans
  obtain ⟨e1, e2, e3, -, -⟩ := withClosing_eq name e' l
  refine ⟨by rwa [e1], by rwa [e2], by rwa [e1, e2], by rwa [e2], by rwa [e1, e2], ?_, ?_⟩
  · rw [e1, e2, e3]
    exact fun a ha => ⟨hattrOn a ha, h4 a ha⟩
  · intro s hs
    obtain ⟨lt, hf⟩ := closing_withClosing htag.closing_eq hs
    obtain ⟨us, q, hus, hq, rfl⟩ := findClosing_eq_some hf
    have hlt := hl.passes hus
    have hopen : lt.Passes ['<', '/'] ⟨lt.offset + 2, name ++ q.rest⟩ := ⟨hq.1, rfl⟩
    have hafter := hlt.passes hopen
    have hpos := Text.size_pos hname
    have hle := hus.le
    have hoff : q.offset = lt.offset + 2 + Text.size name := by
      have h5 : '<'.utf8Size = 1 := rfl
      have h6 : '/'.utf8Size = 1 := rfl
      rw [hq.2, Text.size_cons, Text.size_cons, h5, h6]
      omega
    refine ⟨hafter.on ⟨rfl, hoff⟩, by simp only; omega, ?_⟩
    rw [e1, htag.tag_eq]
    simp only
    omega

theorem not_isNameChar_of_endsTagName {c : Char} (h : endsTagName c) : ¬ isNameChar c := by
  simp only [endsTagName, Bool.or_eq_true, beq_iff_eq] at h
  rcases h with (h | rfl) | rfl
  · exact not_isNameChar_of_isTagBlank h
  · decide
  · decide

theorem exists_name_of_mem_findElements {cs name : Text} (hname : ∀ c ∈ name, isNameChar c)
    {e : Element} (h : e ∈ findElements cs name) :
    ∃ us c ds, cs = us ++ '<' :: (name ++ c :: ds) ∧ endsTagName c ∧
      e.name = ⟨us.size + 1, us.size + 1 + name.size⟩ := by
  obtain ⟨k, l, e', hk, ⟨rest, hrest⟩, hends, hread, rfl⟩ := mem_findElements h
  obtain ⟨us, hcs, ho⟩ := Cursor.in_iff.mp hk
  rw [← hrest, List.cons_append, List.drop_one, List.tail_cons, List.drop_left,
    Option.any_eq_true] at hends
  obtain ⟨c, hc, hends⟩ := hends
  obtain ⟨ds, rfl⟩ := List.head?_eq_some_iff.mp hc
  refine ⟨us, c, ds, by rw [hcs, ← hrest, List.cons_append], hends, ?_⟩
  obtain ⟨p, m, te, htag⟩ := readOpeningTag_eq_some.mp hread
  obtain ⟨lt, tag, -, htagName, hstop, hp⟩ := htag.name
  have hsame := hrest.trans hp.1
  rw [List.cons_append, List.cons_append, List.cons.injEq] at hsame
  obtain ⟨rfl, hsame⟩ := hsame
  -- both names are read by the same walk
  have hwalk := @Cursor.skipWhile_append _ _ hname (c :: ds)
    (by simpa using not_isNameChar_of_endsTagName hends) (k.offset + 1)
  rw [hsame, Cursor.skipWhile_append htagName.1.2 hstop, Cursor.mk.injEq] at hwalk
  have hoff := hp.2
  have h1 : '<'.utf8Size = 1 := rfl
  rw [Text.size_cons, h1] at hoff
  rw [(withClosing_eq name e' l).2.1, htag.name_eq, Span.mk.injEq]
  omega

/-- An element of which the opening tag has an end closes itself or has a closing tag, unless it is
said to be unclosed. -/
theorem isSome_closing_of_mem_findElements {cs name : Text} {e : Element}
    (h : e ∈ findElements cs name) (ht : e.terminated = true) (hs : e.selfClosing = false)
    (hc : e.children ≠ .unclosed) : e.closing.isSome := by
  obtain ⟨k, l, e', -, -, -, -, rfl⟩ := mem_findElements h
  obtain ⟨-, -, -, e4, e5⟩ := withClosing_eq name e' l
  rw [e4] at hs
  rw [e5] at ht
  unfold withClosing at hc ⊢
  rw [if_pos (by rw [ht, hs]; rfl)] at hc ⊢
  split at hc
  · rfl
  · exact absurd rfl hc

/-- What is said of the children of an element, and where else that is said. -/
theorem children_of_mem_findElements {cs name : Text} {e : Element}
    (h : e ∈ findElements cs name) : (e.children = .selfClosing ↔ e.selfClosing = true) ∧
      (e.children = .wellFormed → e.selfClosing = false ∧ e.closing.isSome = true) := by
  obtain ⟨k, l, e', -, -, -, hread, rfl⟩ := mem_findElements h
  obtain ⟨p, m, te, htag⟩ := readOpeningTag_eq_some.mp hread
  have hfollowed : ∀ us, checkChildren us ≠ .selfClosing := by
    intro us
    unfold checkChildren
    split <;> simp
  have hself := htag.selfClosing_eq
  have hchildren := htag.children_eq
  rw [← hself] at hchildren
  unfold withClosing
  split
  · next hopen =>
    obtain ⟨-, hnot⟩ : e'.terminated = true ∧ e'.selfClosing = false := by simpa using hopen
    split <;> simp [hnot, hfollowed]
  · cases hs : e'.selfClosing <;> simp [hchildren, hs]

theorem exists_point_of_mem_closing {cs name : Text} {e : Element} (h : e ∈ findElements cs name)
    {s : Span} (hs : s ∈ e.closing) : ∃ lt l : Cursor, lt.In cs ∧ lt.Passes ('<' :: '/' :: name) l ∧
      s = ⟨lt.offset + 2, l.offset⟩ := by
  obtain ⟨k, l, e', hk, -, -, hread, rfl⟩ := mem_findElements h
  obtain ⟨p, m, te, htag⟩ := readOpeningTag_eq_some.mp hread
  obtain ⟨-, -, -, hl⟩ := htag.on hk
  obtain ⟨lt, hf⟩ := closing_withClosing htag.closing_eq hs
  obtain ⟨us, q, hus, hq, rfl⟩ := findClosing_eq_some hf
  exact ⟨lt, q, hl.passes hus, hq, rfl⟩

theorem exists_closing_of_mem_findElements {cs name : Text} {e : Element}
    (h : e ∈ findElements cs name) {s : Span} (hs : s ∈ e.closing) :
    ∃ us ds, cs = us ++ '<' :: '/' :: ds ∧ s.start = us.size + 2 := by
  obtain ⟨lt, l, hlt, hl, rfl⟩ := exists_point_of_mem_closing h hs
  obtain ⟨before, hcs, ho⟩ := Cursor.in_iff.mp hlt
  exact ⟨before, _, by rw [hcs, hl.1]; rfl, by simp only [ho]⟩

theorem slice_closing_of_mem_findElements {cs name : Text} {e : Element}
    (h : e ∈ findElements cs name) {s : Span} (hs : s ∈ e.closing) : cs.slice s = name := by
  obtain ⟨lt, l, hlt, hl, rfl⟩ := exists_point_of_mem_closing h hs
  have hopen : lt.Passes ['<', '/'] ⟨lt.offset + 2, name ++ l.rest⟩ := ⟨hl.1, rfl⟩
  have hname : Cursor.Passes ⟨lt.offset + 2, name ++ l.rest⟩ name l := by
    refine ⟨rfl, ?_⟩
    have h1 : Text.size ('<' :: '/' :: name) = 2 + Text.size name :=
      Text.size_append ['<', '/'] name
    rw [hl.2, h1, Nat.add_assoc]
  exact (hlt.passes hopen).slice_eq hname

end Markup

end DesignLint
