import DesignLint.Proofs.Markup.OpeningTag

/-!
# Reading a changed tag

What a text in front of another one says about its attributes does not depend on the other one
(`Reads.content_eq`). On the other hand an attribute that is read with the same name and the same
value at the same place, but in front of another text, ends at the same place, too
(`TagPiece.eq_of_content`): whatever runs on behind its former end has a longer name or a longer
value. So attributes that are read again are read up to the same point (`Reads.resume`).

`Shows t name selfClosing vs` says that an opening tag is read at the start of `t`, and what its
parts are.
-/

namespace DesignLint.Markup

/-! ### Attributes and the text that they are read from -/

namespace Reads

variable {as bs : List Attribute} {us xs ys : Text} {o n : Nat}

theorem eq {k l : Cursor} (h : Reads k as l) (h' : Reads k bs l) : as = bs := by
  obtain ⟨cs, hcs, -⟩ := h.exists_append h' (Nat.le_refl _)
  obtain ⟨ds, hds, -⟩ := h'.exists_append h (Nat.le_refl _)
  have := congrArg List.length hcs
  have := congrArg List.length hds
  simp only [List.length_append] at *
  have hnil : cs = [] := List.length_eq_zero_iff.mp (by omega)
  rw [hcs, hnil, List.append_nil]

/-- Only the text that is passed counts for what attributes are read. -/
theorem content_eq (h : Reads ⟨o, us ++ xs⟩ as ⟨o + Text.size us, xs⟩)
    (h' : Reads ⟨n, us ++ ys⟩ bs ⟨n + Text.size us, ys⟩) : as.map content = bs.map content := by
  have halone : ∀ {o : Nat} {xs : Text} {as : List Attribute},
      Reads ⟨o, us ++ xs⟩ as ⟨o + Text.size us, xs⟩ →
      ∃ cs, Reads ⟨0, us⟩ cs ⟨Text.size us, []⟩ ∧ cs.map content = as.map content := by
    intro o xs as h
    obtain ⟨vs, cs, hvs, hcs, hmap⟩ := h.cut (List.nil_append xs).symm 0
    obtain rfl : us = vs := List.append_cancel_right hvs.1
    exact ⟨cs, by simpa using hcs, hmap⟩
  obtain ⟨cs, hcs, h1⟩ := halone h
  obtain ⟨ds, hds, h2⟩ := halone h'
  rw [← h1, ← h2, hcs.eq hds]

end Reads

theorem length_expressionValue (x : Text) : match expressionValue x with
    | .expression s => s.toList.length = x.length
    | .template s => s.toList.length = x.length
    | .literal s => s.toList.length + 2 = x.length
    | _ => False := by
  have hlast : ∀ {c : Char} {cs : Text}, cs ≠ [] →
      (String.ofList cs.dropLast).toList.length + 2 = (c :: cs).length := by
    intro c cs hne
    have := List.length_pos_iff.mpr hne
    rw [String.toList_ofList, List.length_dropLast, List.length_cons]
    omega
  have hquote : ∀ {c : Char} {cs : Text}, (closeQuote c 0 cs).any (·.rest == []) → cs ≠ [] := by
    rintro c cs h rfl
    simp [closeQuote] at h
  have htemplate : ∀ {cs : Text}, (templateEnd ⟨0, cs⟩).any (·.rest == []) → cs ≠ [] := by
    rintro cs h rfl
    obtain ⟨l, hl, -⟩ := (Option.any_eq_true _ _).mp h
    obtain ⟨us, hus, hp⟩ := templateEnd_eq_some.mp hl
    obtain ⟨vs, c, rfl, -⟩ := hus.exists_last (by simp)
    simpa using hp.1
  unfold expressionValue
  cases x with
  | nil => rfl
  | cons c cs =>
    simp only
    split_ifs with h1 h2 h3 h4 h5
    · exact hlast (hquote h2)
    · simp
    · simp
    · exact hlast (htemplate h4)
    · simp
    · simp

theorem length_eq_of_expressionValue_eq {x y : Text} (h : expressionValue x = expressionValue y) :
    x.length = y.length := by
  have hx := length_expressionValue x
  have hy := length_expressionValue y
  rw [h] at hx
  split at hy <;> simp_all

theorem expressionValue_ne_flag (x : Text) : expressionValue x ≠ .flag := by
  have hx := length_expressionValue x
  intro h
  rw [h] at hx
  exact hx

theorem append_cons_inj {us vs xs ys : Text} {c : Char} (hu : c ∉ us) (hv : c ∉ vs)
    (h : us ++ c :: xs = vs ++ c :: ys) : us = vs ∧ xs = ys := by
  have hshort : ∀ {us vs xs ys as : Text}, c ∉ vs → vs = us ++ as → c :: xs = as ++ c :: ys →
      us = vs ∧ xs = ys := by
    intro us vs xs ys as hv hvs hc
    cases as with
    | nil => exact ⟨by simpa using hvs.symm, by simpa using hc⟩
    | cons a as =>
      rw [List.cons_append, List.cons.injEq] at hc
      exact absurd (by simp [hvs, hc.1]) hv
  rcases List.append_eq_append_iff.mp h with ⟨as, hvs, hc⟩ | ⟨as, hus, hc⟩
  · exact hshort hv hvs hc
  · obtain ⟨h1, h2⟩ := hshort hu hus hc
    exact ⟨h1.symm, h2.symm⟩

theorem length_trim_append {c : Char} (hc : ¬ isBlank c) (us vs : Text) :
    (Text.trim us).length < (Text.trim (us ++ c :: vs)).length := by
  have hdrop : ∀ us vs : Text, (us ++ c :: vs).dropWhile isBlank = us.dropWhile isBlank ++ c :: vs := by
    intro us vs
    induction us with
    | nil => simp [hc]
    | cons d us ih =>
      rw [List.cons_append, List.dropWhile_cons, List.dropWhile_cons, ih]
      split_ifs <;> rfl
  unfold Text.trim Text.trimEnd Text.trimStart
  rw [hdrop, List.reverse_append, List.reverse_cons, List.append_assoc, List.singleton_append, hdrop]
  have hle := (List.dropWhile_sublist (l := (us.dropWhile isBlank).reverse) isBlank).length_le
  simp only [List.length_reverse, List.length_append, List.length_cons] at hle ⊢
  omega

namespace ValueText

variable {after after' us us' ws : Text} {v : AttributeValue}

theorem ne_flag (h : ValueText after us v) : v ≠ .flag := by
  cases h with
  | quoted => simp
  | expression => exact expressionValue_ne_flag _

theorem length_lt_of_append {e vs : Text} (he : Enclosed after [.outside] ('\x7b' :: e))
    (hvs : vs ≠ []) : (Text.trim e.dropLast).length < (Text.trim (e ++ vs).dropLast).length := by
  obtain ⟨inner, c, hc, hclose⟩ := he.exists_last (by simp)
  obtain ⟨inner, rfl⟩ : ∃ us, inner = '\x7b' :: us := by
    cases inner with
    | nil =>
      obtain ⟨rfl, -⟩ := List.cons.inj hc
      rcases hclose with h | h <;> exact absurd h (by decide)
    | cons d us => exact ⟨us, by rw [(List.cons.inj hc).1]⟩
  rw [List.cons_append, List.cons.injEq] at hc
  have hblank : ¬ isBlank c := by rcases hclose with rfl | rfl <;> decide
  rw [hc.2, List.dropLast_concat, List.append_assoc, List.dropLast_append_of_ne_nil (by simp),
    List.singleton_append, List.dropLast_cons_of_ne_nil hvs]
  exact length_trim_append hblank _ _

theorem eq_of_value (h : ValueText after us v) (h' : ValueText after' us' v)
    (heq : us ++ ws = us' ++ after') : us = us' := by
  cases h with
  | @quoted inside q hq hin =>
    generalize hv : AttributeValue.literal (String.ofList inside) = y at h'
    cases h' with
    | @quoted inside' q' hq' hin' =>
      simp only [List.cons_append, List.append_assoc, List.cons.injEq] at heq
      obtain ⟨rfl, heq⟩ := heq
      rw [(append_cons_inj hin hin' heq).1]
    | expression he' =>
      rw [List.cons_append, List.cons_append, List.cons.injEq] at heq
      rcases hq with rfl | rfl <;> exact absurd heq.1 (by decide)
  | @expression e he =>
    generalize hv : expressionValue (Text.trim e.dropLast) = y at h'
    cases h' with
    | @quoted inside' q' hq' hin' =>
      rw [List.cons_append, List.cons_append, List.cons.injEq] at heq
      rcases hq' with rfl | rfl <;> exact absurd heq.1 (by decide)
    | @expression e' he' =>
      have hlen := length_eq_of_expressionValue_eq hv
      rw [List.cons_append, List.cons_append, List.cons.injEq] at heq
      rcases List.append_eq_append_iff.mp heq.2 with ⟨vs, rfl, -⟩ | ⟨vs, rfl, -⟩
      · by_cases hvs : vs = []
        · rw [hvs, List.append_nil]
        · have := length_lt_of_append he hvs
          omega
      · by_cases hvs : vs = []
        · rw [hvs, List.append_nil]
        · have := length_lt_of_append he' hvs
          omega

end ValueText

theorem takeWhile_append_eq {p : Char → Bool} {us vs : Text} (hu : ∀ c ∈ us, p c)
    (hv : ∀ c ∈ vs.head?, ¬ p c) : (us ++ vs).takeWhile p = us := by
  rw [List.takeWhile_append_of_pos hu]
  cases vs with
  | nil => simp
  | cons v vs => simp [hv v rfl]

theorem TagPiece.eq_of_content {after after' us us' ws : Text} {x : String × AttributeValue}
    (h : TagPiece after us (some x)) (h' : TagPiece after' us' (some x))
    (hx : ∀ s, x.2 ≠ .spread s) (heq : us ++ ws = us' ++ after') : us = us' := by
  have hsame : ∀ {name name' : Text}, String.ofList name = String.ofList name' → name = name' := by
    intro name name' hs
    simpa using congrArg String.toList hs
  cases h with
  | flag hn =>
    generalize hv : (some (String.ofList _, AttributeValue.flag) : Option _) = y at h'
    cases h' with
    | flag hn' => exact hsame (by simpa using hv)
    | valued _ _ _ hval =>
      simp only [Option.some.injEq, Prod.mk.injEq] at hv
      exact absurd hv.2.symm hval.ne_flag
    | spread => simp at hv
    | comment => simp at hv
  | spread => exact absurd rfl (hx _)
  | @valued name bs cs us v hn hb hc hval =>
    generalize hv : (some (String.ofList name, v) : Option _) = y at h'
    cases h' with
    | flag =>
      simp only [Option.some.injEq, Prod.mk.injEq] at hv
      exact absurd hv.2 hval.ne_flag
    | spread =>
      simp only [Option.some.injEq, Prod.mk.injEq] at hv
      exact absurd hv.2 (hx _)
    | comment => simp at hv
    | @valued name' bs' cs' us' v' hn' hb' hc' hval' =>
      simp only [Option.some.injEq, Prod.mk.injEq] at hv
      obtain ⟨hname, rfl⟩ := hv
      obtain rfl := hsame hname
      have hsign : ∀ {us : Text}, Blanks us → '=' ∉ us := fun hus hmem =>
        absurd (hus _ hmem) (by decide)
      simp only [List.append_assoc, List.cons_append, List.append_cancel_left_eq] at heq
      obtain ⟨rfl, hvalue⟩ := append_cons_inj (hsign hb) (hsign hb') heq
      have htake := congrArg (List.takeWhile isTagBlank) hvalue
      rw [takeWhile_append_eq hc (hval.head?_ne ws),
        takeWhile_append_eq hc' (hval'.head?_ne after')] at htake
      subst htake
      rw [hval.eq_of_value hval' (List.append_cancel_left hvalue)]

theorem TagPiece.head?_name {after us : Text} {x : String × AttributeValue}
    (h : TagPiece after us (some x)) (hx : ∀ s, x.2 ≠ .spread s) (ws : Text) :
    ∀ c ∈ (us ++ ws).head?, isNameChar c := by
  have hname : ∀ {name ws : Text}, IsName name → ∀ c ∈ (name ++ ws).head?, isNameChar c := by
    intro name ws hn c hc
    obtain ⟨d, name, rfl⟩ := List.exists_cons_of_ne_nil hn.1
    obtain rfl : d = c := by simpa using hc
    exact hn.2 d (by simp)
  cases h with
  | flag hn => exact hname hn
  | valued hn =>
    rw [List.append_assoc]
    exact hname hn
  | spread => exact absurd rfl (hx _)

/-- **Attributes that are read again are read up to the same point.** -/
theorem Reads.resume {k l m k' : Cursor} {as bs : List Attribute} {us ys : Text}
    {cs : List (String × AttributeValue)} (h : Reads k as l) (hp : k.Passes us l)
    (hspread : ∀ a ∈ as, ∀ s, a.value ≠ .spread s) (hcomment : ¬ ['/', '*'] <:+: us)
    (hk' : k'.rest = us ++ ys) (h' : Reads k' bs m) (hcs : bs.map content = as.map content ++ cs) :
    ∃ bs, Reads k' bs ⟨k'.offset + Text.size us, ys⟩ := by
  induction h generalizing us k' bs with
  | done k =>
    have hus : us = [] := Text.size_eq_zero.mp (by have := hp.2; omega)
    subst hus
    obtain ⟨o, rest⟩ := k'
    obtain rfl : rest = ys := hk'
    exact ⟨[], .done _⟩
  | @more k l₁ l a as hstep hr ih =>
    obtain ⟨ds, vs, hd, hpiece, hp₁, -⟩ := exists_piece_of_attribute hstep
    obtain ⟨ws, hws, -⟩ := hr.exists_passes
    obtain rfl : us = ds ++ vs ++ ws := List.append_cancel_right (hp.1.symm.trans (hp₁.trans hws).1)
    have hvs : ∀ {ds' vs' : Text} {l' : Cursor}, Blanks ds' → k'.Passes (ds' ++ vs') l' →
        (∀ c ∈ (vs' ++ l'.rest).head?, ¬ isTagBlank c) →
        ds = ds' ∧ vs ++ (ws ++ ys) = vs' ++ l'.rest := by
      intro ds' vs' l' hd' hp' hhead
      have heq := hk'.symm.trans hp'.1
      simp only [List.append_assoc] at heq
      have htake := congrArg (List.takeWhile isTagBlank) heq
      rw [takeWhile_append_eq hd (hpiece.head?_ne _), takeWhile_append_eq hd' hhead]
        at htake
      subst htake
      exact ⟨rfl, List.append_cancel_left heq⟩
    have hx := hspread a (by simp)
    cases h' with
    | done => simp at hcs
    | comment hstep' =>
      obtain ⟨ds', vs', hd', hpiece', hp'⟩ := exists_piece_of_comment hstep'
      obtain ⟨-, heq⟩ := hvs hd' hp' (hpiece'.head?_ne _)
      cases hpiece' with
      | comment =>
        exact absurd (hpiece.head?_name hx (ws ++ ys) '\x7b' (by rw [heq]; rfl)) (by decide)
    | @more _ l' _ a' bs hstep' hr' =>
      rw [List.map_cons, List.map_cons, List.cons_append, List.cons.injEq] at hcs
      obtain ⟨ds', vs', hd', hpiece', hp', -⟩ := exists_piece_of_attribute hstep'
      obtain ⟨rfl, heq⟩ := hvs hd' hp' (hpiece'.head?_ne _)
      have hsame : (a'.name, a'.value) = (a.name, a.value) := hcs.1
      rw [hsame] at hpiece'
      obtain rfl := hpiece.eq_of_content hpiece' hx heq
      obtain ⟨bs', hbs'⟩ := ih hws (fun b hb => hspread b (by simp [hb]))
        (fun h => hcomment (h.trans (List.suffix_append _ _).isInfix))
        (List.append_cancel_left heq).symm hr' hcs.2
      refine ⟨a' :: bs', .more hstep' ?_⟩
      rwa [hp'.2, Nat.add_assoc, ← Text.size_append] at hbs'
  | @comment k l₁ l as hstep hr ih =>
    obtain ⟨ds, vs, -, hpiece, hp₁⟩ := exists_piece_of_comment hstep
    obtain ⟨ws, hws, -⟩ := hr.exists_passes
    obtain rfl : us = ds ++ vs ++ ws := List.append_cancel_right (hp.1.symm.trans (hp₁.trans hws).1)
    cases hpiece with
    | @comment e _ hopen _ =>
      obtain ⟨bs, hbs, -⟩ := Text.exists_trim e.dropLast
      have htrim : Text.trim e.dropLast <:+: e.dropLast := ⟨_, bs, hbs.symm⟩
      have he : e.dropLast <:+: ds ++ '\x7b' :: e ++ ws :=
        (List.dropLast_prefix e).isInfix.trans ⟨ds ++ ['\x7b'], ws, by simp⟩
      exact absurd (hopen.isInfix.trans (htrim.trans he)) hcomment

/-! ### The tag at the start of a text -/

/-- The opening tag at the start of a text is terminated, and what its parts are. -/
def Shows (t name : Text) (selfClosing : Bool) (vs : List (String × AttributeValue)) : Prop :=
  ∃ e last, readOpeningTag (.start t) = some (e, last) ∧ e.terminated = true ∧
    t.slice e.name = name ∧ e.selfClosing = selfClosing ∧ e.attributes.map content = vs

/-- Attributes are read from a point on, and then the tag ends. -/
def Finishes (k : Cursor) (selfClosing : Bool) (vs : List (String × AttributeValue)) : Prop :=
  ∃ as m te last, Reads k as m ∧ Ends m te last ∧ te ≠ .unterminated ∧
    (te == .closedItself) = selfClosing ∧ as.map content = vs

/-- How a tag ends does not depend on what stands behind it. -/
theorem Ends.exists_end {m last : Cursor} {te : TagEnd} (h : Ends m te last)
    (hte : te ≠ .unterminated) : ∃ us, m.Passes us last ∧ us ≠ [] ∧
      ∀ o, ∃ l, Ends ⟨o, us⟩ te l := by
  cases h with
  | stuck => exact absurd rfl hte
  | @finish selfClosing _ hstep =>
    obtain ⟨bs, hbs, hb, -⟩ := Cursor.exists_skipWhile isTagBlank m
    have hfin := tagStep_eq_finish.mp hstep
    have hhead : ∀ c ∈ (if selfClosing then ['/', '>'] else ['>']).head?, ¬ isTagBlank c := by
      cases selfClosing <;> simp <;> decide
    refine ⟨_, hbs.trans hfin, by cases selfClosing <;> simp, fun o => ?_⟩
    refine ⟨⟨o + Text.size bs + Text.size (if selfClosing then ['/', '>'] else ['>']), []⟩,
      .finish (tagStep_eq_finish.mpr ?_)⟩
    rw [Cursor.skipWhile_append hb hhead]
    exact ⟨by simp, rfl⟩

/-- The rest of a tag finishes elsewhere as it did, also if nothing stands behind it. -/
theorem finishes_of_reads {k m last : Cursor} {as : List Attribute} {te : TagEnd} {us : Text}
    (h : Reads k as m) (he : Ends m te last) (hte : te ≠ .unterminated) (hp : k.Passes us last)
    (o : Nat) : Finishes ⟨o, us⟩ (te == .closedItself) (as.map content) := by
  obtain ⟨vs, hvs, -, hend⟩ := he.exists_end hte
  obtain ⟨ws, bs, hws, hbs, hmap⟩ := h.cut hvs.1 o
  obtain rfl : us = ws ++ vs := List.append_cancel_right (hp.1.symm.trans (hws.trans hvs).1)
  obtain ⟨l, hl⟩ := hend (o + Text.size ws)
  exact ⟨bs, _, te, l, hbs, hl, hte, rfl, hmap⟩

theorem Finishes.of_reads {k l : Cursor} {as : List Attribute} {selfClosing : Bool}
    {vs : List (String × AttributeValue)} (h : Reads k as l) (h' : Finishes l selfClosing vs) :
    Finishes k selfClosing (as.map content ++ vs) := by
  obtain ⟨bs, m, te, last, hbs, he, hte, hsc, rfl⟩ := h'
  exact ⟨as ++ bs, m, te, last, h.append hbs, he, hte, hsc, List.map_append⟩

theorem shows_iff {name us : Text} {selfClosing : Bool} {vs : List (String × AttributeValue)}
    (hn : IsTag name) (hu : ∀ c ∈ us.head?, ¬ isNameChar c) :
    Shows ('<' :: name ++ us) name selfClosing vs ↔
      Finishes ⟨1 + Text.size name, us⟩ selfClosing vs := by
  have hone : '<'.utf8Size = 1 := rfl
  have hpass : (Cursor.start ('<' :: name ++ us)).Passes ('<' :: name)
      ⟨1 + Text.size name, us⟩ := ⟨rfl, by simp [Cursor.start, hone]⟩
  constructor
  · rintro ⟨e, last, hread, hterm, -, hsc, hvs⟩
    obtain ⟨p, m, te, htag⟩ := readOpeningTag_eq_some.mp hread
    obtain ⟨lt, name', hlt, hn', hstop, hp⟩ := htag.name
    have hrest : name ++ us = name' ++ p.rest := by
      have := hp.1
      rw [Cursor.start, List.cons_append, List.cons_append, List.cons.injEq] at this
      exact this.2
    have htake := congrArg (List.takeWhile isNameChar) hrest
    rw [takeWhile_append_eq hn.1.2 hu, takeWhile_append_eq hn'.1.2 hstop] at htake
    subst htake
    obtain rfl : (⟨1 + Text.size name, us⟩ : Cursor) = p := by
      obtain ⟨o, rest⟩ := p
      rw [Cursor.mk.injEq]
      refine ⟨?_, List.append_cancel_left hrest⟩
      have := hp.2
      simp only [Cursor.start, Text.size_cons, hlt] at this
      omega
    refine ⟨e.attributes, m, te, last, htag.reads, htag.ends, ?_, ?_, hvs⟩
    · have := htag.terminated_eq
      rw [hterm] at this
      simpa using this.symm
    · rw [← hsc, htag.selfClosing_eq]
  · rintro ⟨as, m, te, last, hr, he, hte, hsc, hvs⟩
    refine ⟨⟨⟨0, last.offset⟩, ⟨1, 1 + Text.size name⟩, as, te == .closedItself,
      te != .unterminated, none, if te == .closedItself then .selfClosing else .unclosed⟩, last,
      readOpeningTag_eq_some.mpr ⟨_, m, te, ⟨⟨'<', name, hone, hn, hu, hpass⟩, hr, he, rfl, rfl, rfl,
        rfl, rfl, rfl⟩⟩, by simpa using hte, ?_, hsc, hvs⟩
    have := Text.slice_append ['<'] name us
    simpa [hone] using this

theorem Finishes.eq {k : Cursor} {selfClosing selfClosing' : Bool}
    {vs vs' : List (String × AttributeValue)} (h : Finishes k selfClosing vs)
    (h' : Finishes k selfClosing' vs') : vs = vs' := by
  obtain ⟨as, m, te, last, hr, he, -, -, rfl⟩ := h
  obtain ⟨bs, m', te', last', hr', he', -, -, rfl⟩ := h'
  have heq := ((readAttributes_eq (Nat.lt_succ_self _)).mpr ⟨m, hr, he⟩).symm.trans
    ((readAttributes_eq (Nat.lt_succ_self _)).mpr ⟨m', hr', he'⟩)
  rw [(Prod.mk.inj heq).1]

theorem finishes_attribute_iff {target value us : Text} (ht : IsName target) (hv : '"' ∉ value)
    {o : Nat} {selfClosing : Bool} {vs : List (String × AttributeValue)} :
    Finishes ⟨o, ' ' :: (target ++ '=' :: '"' :: (value ++ ['"'])) ++ us⟩ selfClosing
        ((String.ofList target, .literal (String.ofList value)) :: vs) ↔
      Finishes ⟨o + Text.size (' ' :: (target ++ '=' :: '"' :: (value ++ ['"']))), us⟩ selfClosing
        vs := by
  have hpiece : TagPiece us (target ++ ([] ++ '=' :: ([] ++ '"' :: (value ++ ['"']))))
      (some (String.ofList target, .literal (String.ofList value))) :=
    .valued ht (by simp [Blanks]) (by simp [Blanks]) (.quoted (Or.inl rfl) hv)
  have hblank : Blanks [' '] := by simp [Blanks, isTagBlank]
  have hstep := hpiece.step_eq (k := ⟨o, ' ' :: (target ++ '=' :: '"' :: (value ++ ['"'])) ++ us⟩)
    (l := ⟨o + Text.size (' ' :: (target ++ '=' :: '"' :: (value ++ ['"']))), us⟩) hblank
    ⟨by simp, by simp⟩
  constructor
  · rintro ⟨as, m, te, last, hr, he, hte, hsc, hvs⟩
    cases hr with
    | done => simp at hvs
    | comment hc =>
      rw [hstep] at hc
      cases hc
    | @more _ l _ a as ha hr =>
      rw [hstep] at ha
      obtain ⟨rfl, rfl⟩ := TagStep.attribute.inj ha
      rw [List.map_cons, List.cons.injEq] at hvs
      exact ⟨as, m, te, last, hr, he, hte, hsc, hvs.2⟩
  · intro h
    exact Finishes.of_reads (.more hstep (.done _)) h

/-- A text goes on with another one so that the attributes of the first end where it ends. -/
def Joins (us vs : Text) : Prop := ∃ bs, Reads ⟨0, us ++ vs⟩ bs ⟨Text.size us, vs⟩

theorem Reads.joins {us vs : Text} {bs : List Attribute} {o : Nat}
    (h : Reads ⟨o, us ++ vs⟩ bs ⟨o + Text.size us, vs⟩) : Joins us vs := by
  obtain ⟨ws, cs, hws, hcs, -⟩ := h.cut (List.append_nil vs).symm 0
  obtain rfl : us = ws := List.append_cancel_right hws.1
  exact ⟨cs, by simpa using hcs⟩

section

variable {p q r m last : Cursor} {as bs : List Attribute} {te : TagEnd} {us ts : Text}

/-- If what stands in front of a removed attribute ends there also without it, all other attributes
are read again. -/
theorem finishes_of_joins (h : Reads p as q) (hp : p.Passes us q) (h' : Reads r bs m)
    (he : Ends m te last) (hte : te ≠ .unterminated) (hr : r.Passes ts last) (hj : Joins us ts)
    (o : Nat) : Finishes ⟨o, us ++ ts⟩ (te == .closedItself) ((as ++ bs).map content) := by
  obtain ⟨cs, hcs⟩ := hj
  obtain ⟨ws, ds, hws, hds, -⟩ := hcs.cut (List.append_nil ts).symm o
  obtain rfl : us = ws := List.append_cancel_right hws.1
  have hpq : Reads ⟨p.offset, us ++ q.rest⟩ as ⟨p.offset + Text.size us, q.rest⟩ := by
    obtain ⟨o, rest⟩ := p
    obtain ⟨o', rest'⟩ := q
    obtain ⟨hrest, ho⟩ := hp
    simp only at hrest ho
    subst hrest ho
    exact h
  rw [List.map_append, hpq.content_eq hds]
  exact .of_reads hds (finishes_of_reads h' he hte hr _)

/-- If all other attributes are read again, and no comment is in the way, what stands in front of a
removed attribute ends there also without it. -/
theorem joins_of_finishes (h : Reads p as q) (hp : p.Passes us q)
    (hspread : ∀ a ∈ as, ∀ s, a.value ≠ .spread s) (hcomment : ¬ ['/', '*'] <:+: us) {o : Nat}
    {selfClosing : Bool} {cs : List (String × AttributeValue)}
    (hf : Finishes ⟨o, us ++ ts⟩ selfClosing (as.map content ++ cs)) : Joins us ts := by
  obtain ⟨bs, m, te, last, hr, -, -, -, hcs⟩ := hf
  obtain ⟨ds, hds⟩ := h.resume hp hspread hcomment rfl hr hcs
  exact hds.joins

end

end DesignLint.Markup
