import DesignLint.Proofs.Style.BlockComment
import DesignLint.Proofs.Style.Sites

/-!
# Declared values and interpolations

`interpolations` lists the spans of the interpolations of a template literal, and these are what its
mask covers (`maskInterpolations_eq`). A value that is found in the mask starts behind a colon or a
tab, up to spaces, none of which is a covered character, and it does not end inside a covered pair
of characters. So if it overlaps an interpolation, the characters that start the interpolation
belong to it, whether or not an `!important` has been cut off (`has_of_overlaps`). Bodies of
template literals lie apart (`eq_or_apart_of_mem_templateBodies`), so this goes for all of a
script (`has_of_mem_templateSites`).
-/

namespace DesignLint.Style

/-- What an interpolation starts with. -/
abbrev interpolationMark : Text := ['$', '\x7b']

/-- The spans of the interpolations of a template literal, from a point on.  `fuel` bounds their
number. -/
def interpolationsFrom : (fuel : Nat) → Cursor → List Span
  | 0, _ => []
  | fuel + 1, k =>
    match k.find interpolationMark with
    | none => []
    | some start =>
      match Markup.expressionEnd (start.skip 1) with
      | some stop => ⟨start.offset, stop.offset⟩ :: interpolationsFrom fuel stop
      | none => [⟨start.offset, start.offset + start.rest.size⟩]

/-- The spans of the interpolations in the body of a template literal. -/
def interpolations (cs : Text) : List Span := interpolationsFrom cs.length (.start cs)

/-- A text with every character covered that starts in one of some spans; `o` is the offset of the
text. -/
def coverSpans (filler : Char) (spans : List Span) (o : Nat) : Text → Text
  | [] => []
  | c :: cs =>
    (if ∃ s ∈ spans, s.Holds o then cover filler c else [c]) ++
      coverSpans filler spans (o + c.utf8Size) cs

section

variable {filler : Char} {spans : List Span} {s : Span} {o fuel : Nat} {us vs cs : Text}
  {k start stop : Cursor}

/-! ### Covering spans -/

theorem coverSpans_append (filler : Char) (spans : List Span) (o : Nat) (us vs : Text) :
    coverSpans filler spans o (us ++ vs) =
      coverSpans filler spans o us ++ coverSpans filler spans (o + us.size) vs := by
  induction us generalizing o with
  | nil => rfl
  | cons c us ih =>
    rw [List.cons_append, coverSpans, coverSpans, ih, List.append_assoc, Text.size_cons,
      Nat.add_assoc]

theorem coverSpans_apart (h : ∀ s ∈ spans, s.stop ≤ o ∨ o + us.size ≤ s.start) :
    coverSpans filler spans o us = us := by
  induction us generalizing o with
  | nil => rfl
  | cons c us ih =>
    have hpos := c.utf8Size_pos
    simp only [Text.size_cons] at h
    have hnot : ¬ ∃ s ∈ spans, s.Holds o := by
      rintro ⟨s, hs, hstart, hstop⟩
      have := h s hs
      omega
    rw [coverSpans, if_neg hnot, ih fun s hs => by have := h s hs; omega]
    rfl

theorem coverSpans_within (hs : s ∈ spans) (hstart : s.start ≤ o) (hstop : o + us.size ≤ s.stop) :
    coverSpans filler spans o us = coverAll filler us := by
  induction us generalizing o with
  | nil => rfl
  | cons c us ih =>
    have hpos := c.utf8Size_pos
    rw [Text.size_cons] at hstop
    rw [coverSpans, if_pos ⟨s, hs, hstart, by omega⟩, ih (by omega) (by omega)]
    rfl

theorem coverSpans_cons_of_le (h : s.stop ≤ o) :
    coverSpans filler (s :: spans) o us = coverSpans filler spans o us := by
  induction us generalizing o with
  | nil => rfl
  | cons c us ih =>
    have hiff : (∃ t ∈ s :: spans, t.Holds o) ↔ ∃ t ∈ spans, t.Holds o := by
      simp [Span.Holds, Nat.not_lt.mpr h]
    rw [coverSpans, coverSpans, ih (by omega)]
    simp only [hiff]

theorem size_coverSpans (filler : Char) (hf : filler.utf8Size = 1) (spans : List Span) (o : Nat)
    (us : Text) : (coverSpans filler spans o us).size = us.size := by
  induction us generalizing o with
  | nil => rfl
  | cons c us ih =>
    have hc : Text.size (if ∃ s ∈ spans, s.Holds o then cover filler c else [c]) = c.utf8Size := by
      split_ifs
      · exact size_shown (m := (c, true)) hf
      · simp
    rw [coverSpans, Text.size_append, hc, ih, Text.size_cons]

/-! ### Where interpolations are -/

theorem exists_interpolation (h : interpolationMark <+: start.rest)
    (hstop : Markup.expressionEnd (start.skip 1) = some stop) :
    ∃ gs, start.Passes (interpolationMark ++ gs) stop := by
  obtain ⟨o, rest⟩ := start
  obtain ⟨rest, rfl⟩ := h
  obtain ⟨us, c, hc, rfl, ho⟩ := Markup.exists_inside hstop
  have hd : '$'.utf8Size = 1 := rfl
  have hb : '\x7b'.utf8Size = 1 := rfl
  refine ⟨us ++ [c], by simp, ?_⟩
  simp only [ho, Text.size_append, Text.size_cons, Text.size_nil,
    Markup.utf8Size_closer hc, hd, hb]
  omega

theorem le_start_of_mem_interpolationsFrom (h : s ∈ interpolationsFrom fuel k) :
    k.offset ≤ s.start := by
  induction fuel generalizing k with
  | zero => simp [interpolationsFrom] at h
  | succ fuel ih =>
    rw [interpolationsFrom] at h
    split at h
    · simp at h
    · next start hstart =>
      obtain ⟨us, hus, hmark, -⟩ := Cursor.find_eq_some.mp hstart
      split at h
      · next stop hstop =>
        obtain ⟨gs, hgs⟩ := exists_interpolation hmark hstop
        rcases List.mem_cons.mp h with rfl | h
        · exact hus.le
        · exact Nat.le_trans (hus.trans hgs).le (ih h)
      · rw [List.mem_singleton.mp h]
        exact hus.le

theorem maskInterpolations_eq_from (fuel : Nat) (k : Cursor) : maskInterpolations fuel k =
    coverSpans 'x' (interpolationsFrom fuel k) k.offset k.rest := by
  induction fuel generalizing k with
  | zero => exact (coverSpans_apart (by simp [interpolationsFrom])).symm
  | succ fuel ih =>
    rw [maskInterpolations, interpolationsFrom]
    cases hfind : k.find interpolationMark with
    | none => exact (coverSpans_apart (by simp)).symm
    | some start =>
      obtain ⟨us, hus, hmark, -⟩ := Cursor.find_eq_some.mp hfind
      simp only [hus.upTo_eq]
      cases hend : Markup.expressionEnd (start.skip 1) with
      | none =>
        have hlead : coverSpans 'x' [⟨start.offset, start.offset + start.rest.size⟩] k.offset us =
            us := by
          refine coverSpans_apart fun s hs => ?_
          rw [List.mem_singleton.mp hs]
          exact Or.inr (Nat.le_of_eq hus.2.symm)
        simp only [hus.1]
        rw [coverSpans_append, hlead, ← hus.2,
          coverSpans_within (List.mem_singleton_self _) (Nat.le_refl _) (Nat.le_refl _)]
      | some stop =>
        obtain ⟨gs, hgs⟩ := exists_interpolation hmark hend
        simp only [hgs.upTo_eq, hus.1]
        generalize interpolationMark ++ gs = gs at hgs
        have hlead : coverSpans 'x' (⟨start.offset, stop.offset⟩ :: interpolationsFrom fuel stop)
            k.offset us = us := by
          refine coverSpans_apart fun s hs => Or.inr ?_
          rw [← hus.2]
          rcases List.mem_cons.mp hs with rfl | hs
          · exact Nat.le_refl _
          · exact Nat.le_trans hgs.le (le_start_of_mem_interpolationsFrom hs)
        rw [coverSpans_append, hlead, ← hus.2, hgs.1, coverSpans_append, ← hgs.2,
          coverSpans_within (List.mem_cons_self ..) (Nat.le_refl _) (Nat.le_of_eq hgs.2.symm),
          coverSpans_cons_of_le (Nat.le_refl _), ← ih stop, List.append_assoc]

/-- **The mask of a template literal covers its interpolations**, and nothing else. -/
theorem maskInterpolations_eq (cs : Text) : maskInterpolations cs.length (.start cs) =
    coverSpans 'x' (interpolations cs) 0 cs :=
  maskInterpolations_eq_from cs.length (.start cs)

theorem exists_of_mem_interpolationsFrom (h : s ∈ interpolationsFrom fuel k) : ∃ as gs bs,
    k.rest = as ++ (interpolationMark ++ gs ++ bs) ∧ s.start = k.offset + as.size ∧
      s.stop = s.start + (interpolationMark ++ gs).size := by
  induction fuel generalizing k with
  | zero => simp [interpolationsFrom] at h
  | succ fuel ih =>
    rw [interpolationsFrom] at h
    split at h
    · simp at h
    · next start hstart =>
      obtain ⟨us, hus, hmark, -⟩ := Cursor.find_eq_some.mp hstart
      split at h
      · next stop hstop =>
        obtain ⟨gs, hgs⟩ := exists_interpolation hmark hstop
        rcases List.mem_cons.mp h with rfl | h
        · exact ⟨us, gs, stop.rest, by rw [hus.1, hgs.1], hus.2, hgs.2⟩
        · obtain ⟨as, gs', bs, hrest, hstart, hsize⟩ := ih h
          have hp := hus.trans hgs
          refine ⟨us ++ (interpolationMark ++ gs) ++ as, gs', bs, ?_, ?_, hsize⟩
          · rw [hp.1, hrest]
            simp only [List.append_assoc]
          · rw [hstart, hp.2, Text.size_append _ as, Nat.add_assoc]
      · obtain ⟨rest, hrest⟩ := hmark
        rw [List.mem_singleton.mp h]
        exact ⟨us, rest, [], by rw [hus.1, ← hrest, List.append_nil], hus.2, by rw [hrest]⟩

theorem exists_of_mem_interpolations (h : s ∈ interpolations cs) : ∃ as gs bs us ws,
    cs = as ++ (interpolationMark ++ gs ++ bs) ∧
      maskInterpolations cs.length (.start cs) = us ++ ('x' :: 'x' :: coverAll 'x' gs ++ ws) ∧
      us.size = as.size ∧ s.start = as.size ∧ s.stop = as.size + 2 + gs.size := by
  obtain ⟨as, gs, bs, hcs, hstart, hstop⟩ := exists_of_mem_interpolationsFrom h
  have hcs : cs = as ++ (interpolationMark ++ gs ++ bs) := hcs
  have hstart : s.start = as.size := hstart.trans (Nat.zero_add _)
  have hd : '$'.utf8Size = 1 := rfl
  have hb : '\x7b'.utf8Size = 1 := rfl
  have hmask := maskInterpolations_eq cs
  generalize interpolations cs = spans at h hmask
  conv at hmask => rhs; rw [hcs]
  rw [coverSpans_append, coverSpans_append, Nat.zero_add, ← hstart,
    coverSpans_within h (Nat.le_refl _) (Nat.le_of_eq hstop.symm)] at hmask
  refine ⟨as, gs, bs, _, _, hcs, hmask, size_coverSpans 'x' rfl _ _ _, hstart, ?_⟩
  simp only [hstop, hstart, Text.size_append, Text.size_cons, Text.size_nil, hd, hb]
  omega

/-! ### Values that overlap an interpolation -/

theorem eq_of_mem_covered {c : Char} (h : c ∈ 'x' :: 'x' :: coverAll 'x' us) :
    c = 'x' ∨ c = '\n' := by
  simp only [List.mem_cons] at h
  rcases h with rfl | rfl | h
  · exact Or.inl rfl
  · exact Or.inl rfl
  · obtain ⟨d, -, hd⟩ := List.mem_flatMap.mp h
    exact eq_of_mem_cover hd

variable {d : Declaration}

/-- A declared value does not start behind the first character of an interpolation. -/
theorem Declaration.Ahead.start_le (h : d.Ahead (.start (maskInterpolations cs.length (.start cs))))
    (hs : s ∈ interpolations cs) (hlt : d.start.offset < s.stop) : d.start.offset ≤ s.start := by
  obtain ⟨as, gs, bs, us, ws, -, hmask, hus, hstart, hstop⟩ := exists_of_mem_interpolations hs
  obtain ⟨lead, hlead, hoffset, c, hc, hopens⟩ := h.exists_opens
  by_contra hn
  rw [hmask] at hlead
  obtain ⟨ys, rfl, hrest⟩ := Text.append_of_size_le hlead (by omega)
  have hcovered : Text.size ('x' :: 'x' :: coverAll 'x' gs) = 2 + gs.size := by
    have hx : 'x'.utf8Size = 1 := rfl
    simp only [Text.size_cons, size_coverAll 'x' rfl, hx]
    omega
  rw [Text.size_append] at hoffset
  obtain ⟨zs, hzs, -⟩ := Text.append_of_size_le hrest.symm (by rw [hcovered]; omega)
  -- the value starts behind a covered character, but no such character opens a value
  have hne : ys ≠ [] := by
    rintro rfl
    simp only [Text.size_nil] at hoffset
    omega
  rw [List.getLast?_append, List.getLast?_eq_some_getLast hne] at hc
  obtain rfl := Option.some.inj hc
  have hmem : ys.getLast hne ∈ 'x' :: 'x' :: coverAll 'x' gs := by
    rw [hzs]
    exact List.mem_append_left _ (List.getLast_mem hne)
  rcases eq_of_mem_covered hmem with hx | hx
  · rw [hx] at hopens
    rcases hopens with h | h | h <;> exact absurd h (by decide)
  · rw [hx] at hopens
    rcases hopens with h | h | h <;> exact absurd h (by decide)

/-- A declaration that reaches into an interpolation reaches over its mark. -/
theorem Declaration.Ahead.mark_le (h : d.Ahead (.start (maskInterpolations cs.length (.start cs))))
    (hs : s ∈ interpolations cs) (hlt : s.start < d.stop.offset) :
    s.start + 2 ≤ d.stop.offset := by
  obtain ⟨as, gs, bs, us, ws, -, hmask, hus, hstart, -⟩ := exists_of_mem_interpolations hs
  obtain ⟨lead, hlead, hoffset, -⟩ := h.exists_opens
  obtain ⟨-, ⟨vs, hvs, -⟩, ⟨gap, bs, hrest, hgap, hend⟩, -⟩ := h
  have hstop : d.stop.offset = (lead ++ vs).size := by rw [hvs.2, hoffset, Text.size_append]
  rw [hmask, hvs.1, ← List.append_assoc lead] at hlead
  obtain ⟨ys, hys, hx⟩ := Text.append_of_size_le hlead (by omega)
  have hsize := congrArg Text.size hys
  rw [Text.size_append us] at hsize
  have hone : 'x'.utf8Size = 1 := rfl
  rcases ys with _ | ⟨y, _ | ⟨z, zs⟩⟩
  · simp only [Text.size_nil] at hsize
    omega
  · -- a value that ends in front of the second covered character could go on
    have hhead : (gap ++ bs).head? = some 'x' := by
      have hx : 'x' :: (coverAll 'x' gs ++ ws) = d.stop.rest := (List.cons.inj hx).2
      rw [← hrest, ← hx, List.head?_cons]
    cases gap with
    | nil => exact absurd (hend 'x' hhead) (by decide)
    | cons g gap => exact absurd ((hgap g (by simp)).symm.trans (Option.some.inj hhead)) (by decide)
  · obtain ⟨hy, hx⟩ := List.cons.inj hx
    obtain ⟨hz, -⟩ := List.cons.inj hx
    rw [← hy, ← hz] at hsize
    simp only [Text.size_cons, hone] at hsize
    omega

/-- Importance is not cut off inside the mark of an interpolation. -/
theorem has_withoutImportance {lead zs : Text}
    (h : lead.size < (withoutImportance (lead ++ (interpolationMark ++ zs))).size) :
    Text.has interpolationMark (withoutImportance (lead ++ (interpolationMark ++ zs))) := by
  obtain ⟨cut, hcut, hfirst⟩ : ∃ cut, lead ++ (interpolationMark ++ zs) =
      withoutImportance (lead ++ (interpolationMark ++ zs)) ++ cut ∧
      ∀ c ∈ cut.head?, c = '!' ∨ isBlank c := by
    rcases exists_cut_withoutImportance (lead ++ (interpolationMark ++ zs)) with
      heq | ⟨bs, rest, heq, hbs⟩
    · exact ⟨[], by rw [List.append_nil, heq], by simp⟩
    · refine ⟨_, heq, fun c hc => ?_⟩
      cases bs with
      | nil => exact Or.inl (Option.some.inj hc).symm
      | cons b bs =>
        obtain rfl := Option.some.inj hc
        exact Or.inr (hbs b (by simp))
  generalize withoutImportance (lead ++ (interpolationMark ++ zs)) = value at h hcut
  obtain ⟨ys, rfl, hys⟩ := Text.append_of_size_le hcut (Nat.le_of_lt h)
  rcases ys with _ | ⟨y, _ | ⟨z, ys⟩⟩
  · simp at h
  · -- a cut behind the dollar sign would start with the brace
    have hcut : '\x7b' :: zs = cut := (List.cons.inj hys).2
    rcases hfirst '\x7b' (by rw [← hcut]; rfl) with h | h
    · exact absurd h (by decide)
    · exact absurd h (by decide)
  · obtain ⟨hy, hys⟩ := List.cons.inj hys
    obtain ⟨hz, -⟩ := List.cons.inj hys
    exact Text.has_iff.mpr ⟨lead, ys, by rw [← hy, ← hz, List.append_assoc]; rfl⟩

/-- **A declared value that overlaps an interpolation shows its mark.** -/
theorem has_of_overlaps {properties : List Text} {v : ValueSite}
    (hv : v ∈ declarationSites properties (maskInterpolations cs.length (.start cs)) cs 0)
    (hs : s ∈ interpolations cs) (ho : v.span.overlaps s) :
    Text.has interpolationMark v.value := by
  obtain ⟨d, hd, hsite⟩ := List.mem_filterMap.mp hv
  have hahead := ahead_of_mem_declarations hd
  have hm := masks_maskInterpolations cs
  obtain ⟨hleft, hright, -⟩ := hahead.edges hm (Or.inr rfl)
  have hstop := hahead.stop_le hm (Or.inr rfl) hsite
  obtain ⟨-, -, hvalue, hspan⟩ := Declaration.site?_eq_some hsite
  obtain ⟨as, gs, bs, -, -, hcs, -, -, hstart, -⟩ := exists_of_mem_interpolations hs
  rw [Span.overlaps_iff, hspan] at ho
  rw [hspan] at hstop
  simp only [Nat.zero_add] at ho hstop
  have hle := hahead.start_le hs ho.1
  have hmark := hahead.mark_le hs (by omega)
  -- what is declared: a part in front of the interpolation, its mark, and more
  have hbound : cs.Boundary s.start := ⟨as, _, hcs, hstart.symm⟩
  have hcut := Text.slice_append_slice hleft.boundary hbound hright.boundary hle (by omega)
  have hlead := Text.size_slice hleft.boundary hbound hle
  obtain ⟨n, hn⟩ : ∃ n, d.stop.offset - s.start = Text.size interpolationMark + n :=
    ⟨d.stop.offset - s.start - 2, by
      have : Text.size interpolationMark = 2 := rfl
      omega⟩
  have hbehind : cs.slice ⟨s.start, d.stop.offset⟩ =
      interpolationMark ++ Text.takeBytes n (gs ++ bs) := by
    rw [Text.slice, hn, hstart, hcs, Text.dropBytes_size_append, List.append_assoc,
      Text.takeBytes_size_add]
  rw [hbehind] at hcut
  rw [← hcut] at hvalue
  rw [hvalue] at ho ⊢
  exact has_withoutImportance (by omega)

/-! ### Scripts -/

variable {text : Text} {t u : TemplateBody}

/-- **A value that is declared in a template literal and overlaps an interpolation, of this template
literal or another one, shows its mark.** -/
theorem has_of_mem_templateSites {properties : List Text} {v : ValueSite}
    (ht : t ∈ templateBodies text) (hv : v ∈ templateSites properties t)
    (hu : u ∈ templateBodies text) (hs : s ∈ interpolations u.body)
    (ho : v.span.overlaps (s.shift u.start.offset)) : Text.has interpolationMark v.value := by
  obtain ⟨w, hw, rfl⟩ := exists_of_mem_declarationSites hv
  obtain ⟨hon, -⟩ := on_of_mem_declarationSites (masks_maskInterpolations t.body) (Or.inr rfl) hw
  obtain ⟨as, bs, hbody, hstop⟩ := (Span.on_iff.mp hon.span).2.1
  obtain ⟨as', gs, bs', -, -, hbody', -, -, hstart', hstop'⟩ := exists_of_mem_interpolations hs
  rw [Span.overlaps_iff] at ho
  simp only [Span.shift] at ho
  have hsize := congrArg Text.size hbody
  have hsize' := congrArg Text.size hbody'
  have hmark : Text.size interpolationMark = 2 := rfl
  simp only [Text.size_append, hmark] at hsize hsize'
  rcases eq_or_apart_of_mem_templateBodies ht hu with rfl | hapart
  · have ho' : w.span.overlaps s := Span.overlaps_iff.mpr (by omega)
    exact has_of_overlaps (v := w) hw hs ho'
  · omega

end

end DesignLint.Style
