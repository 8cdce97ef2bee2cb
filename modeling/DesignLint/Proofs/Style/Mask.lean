import DesignLint.Proofs.Markup.Enclosure
import DesignLint.Proofs.Style.Site
import DesignLint.Style.Mask
import Mathlib.Data.List.Chain
import Mathlib.Data.List.Induction

/-!
# Masks and the text below them

A mask shows some characters of a text and covers the others, byte by byte (`Masks`). Covering
starts with the slash of a comment or the dollar sign of an interpolation, and ends behind a break
or at the end of a line. So where a mask is cut next to a character that is no filler, the text can
be cut, too; and a break that stands there in the mask, up to spaces, stands there in the text
(`Masks.leftEdge`, `Masks.rightEdge`).

Both masks of the library are masks in this sense (`masks_maskComments`,
`masks_maskInterpolations`).
-/

namespace DesignLint.Style

/-- A character with whether it is covered, as it is shown. -/
def shown (filler : Char) (m : Char × Bool) : Text := if m.2 then cover filler m.1 else [m.1]

/-- A filler of a mask. -/
def Fills (filler : Char) : Prop := filler = ' ' ∨ filler = 'x'

theorem Fills.utf8Size_eq {filler : Char} (h : Fills filler) : filler.utf8Size = 1 := by
  rcases h with rfl | rfl <;> rfl

/-- What covering starts with: the slash of a comment, which is covered with spaces, or the dollar
sign of an interpolation. -/
def opener (filler : Char) : Char := if filler == ' ' then '/' else '$'

/-- Covering starts as it can, and ends behind a break or in front of a line break. -/
def Seam (filler : Char) (m n : Char × Bool) : Prop :=
  (m.2 = false → n.2 = true → n.1 = opener filler) ∧
    (m.2 = true → n.2 = false → isBreak m.1 ∨ n.1 = '\n')

/-- A text and its mask. -/
def Masks (filler : Char) (cs ms : Text) : Prop :=
  ∃ marks : List (Char × Bool), cs = marks.map Prod.fst ∧ ms = marks.flatMap (shown filler) ∧
    marks.IsChain (Seam filler)

section

variable {filler : Char} {m : Char × Bool} {ms : List (Char × Bool)}

/-! ### One character -/

theorem size_replicate (n : Nat) (hf : filler.utf8Size = 1) :
    Text.size (List.replicate n filler) = n := by
  induction n with
  | zero => rfl
  | succ n ih => rw [List.replicate_succ, Text.size_cons, ih, hf]; omega

theorem size_shown (hf : filler.utf8Size = 1) : Text.size (shown filler m) = m.1.utf8Size := by
  unfold shown cover
  split_ifs with h1 h2
  · rw [beq_iff_eq] at h2
    rw [h2]
    rfl
  · exact size_replicate _ hf
  · simp

theorem size_coverAll (filler : Char) (hf : filler.utf8Size = 1) (cs : Text) :
    (coverAll filler cs).size = cs.size := by
  induction cs with
  | nil => rfl
  | cons c cs ih =>
    have hc := size_shown (m := (c, true)) hf
    rw [coverAll, List.flatMap_cons, Text.size_append, ← coverAll, ih, Text.size_cons]
    exact congrArg (· + Text.size cs) hc

theorem eq_of_mem_cover {c d : Char} (h : d ∈ cover filler c) : d = filler ∨ d = '\n' := by
  unfold cover at h
  split_ifs at h
  · exact Or.inr (List.mem_singleton.mp h)
  · exact Or.inl (List.eq_of_mem_replicate h)

theorem size_flatMap_shown (hf : filler.utf8Size = 1) :
    Text.size (ms.flatMap (shown filler)) = Text.size (ms.map Prod.fst) := by
  induction ms with
  | nil => rfl
  | cons m ms ih => simp [size_shown hf, ih]

/-- What is shown of a character: the character itself, which if covered is a line break, or
fillers. -/
theorem shown_eq (filler : Char) (m : Char × Bool) :
    (shown filler m = [m.1] ∧ (m.2 = true → m.1 = '\n')) ∨
      m.2 = true ∧ shown filler m = List.replicate m.1.utf8Size filler := by
  unfold shown cover
  split_ifs with h1 h2
  · rw [beq_iff_eq] at h2
    exact Or.inl ⟨by rw [h2], fun _ => h2⟩
  · exact Or.inr ⟨h1, rfl⟩
  · exact Or.inl ⟨rfl, fun h => absurd h h1⟩

/-- A place inside a character is between two fillers. -/
theorem filler_of_cut {as bs : Text} (h : shown filler m = as ++ bs) (ha : as ≠ []) (hb : bs ≠ []) :
    as.getLast? = some filler ∧ bs.head? = some filler := by
  have hmem : shown filler m = List.replicate m.1.utf8Size filler := by
    rcases shown_eq filler m with h' | h'
    · rw [h'.1] at h
      have := congrArg List.length h
      have h1 := List.length_pos_iff.mpr ha
      have h2 := List.length_pos_iff.mpr hb
      simp only [List.length_cons, List.length_nil, List.length_append] at this
      omega
    · exact h'.2
  rw [hmem] at h
  have hall : ∀ c ∈ as ++ bs, c = filler := by
    rw [← h]
    exact fun c hc => List.eq_of_mem_replicate hc
  constructor
  · rw [List.getLast?_eq_some_getLast ha]
    exact congrArg some (hall _ (List.mem_append_left _ (List.getLast_mem ha)))
  · rw [List.head?_eq_some_head hb]
    exact congrArg some (hall _ (List.mem_append_right _ (List.head_mem hb)))

/-! ### Cutting -/

/-- A mask that is not cut between two fillers is cut between two characters of the text. -/
theorem exists_marks_cut {as bs : Text} (h : ms.flatMap (shown filler) = as ++ bs)
    (hne : ¬ (as.getLast? = some filler ∧ bs.head? = some filler)) :
    ∃ ms₁ ms₂, ms = ms₁ ++ ms₂ ∧ as = ms₁.flatMap (shown filler) ∧
      bs = ms₂.flatMap (shown filler) := by
  induction ms generalizing as with
  | nil =>
    rw [List.flatMap_nil, eq_comm, List.append_eq_nil_iff] at h
    exact ⟨[], [], rfl, h.1, h.2⟩
  | cons m ms ih =>
    rw [List.flatMap_cons] at h
    rcases List.append_eq_append_iff.mp h with ⟨us, rfl, hr⟩ | ⟨us, hs, rfl⟩
    · obtain ⟨ms₁, ms₂, rfl, rfl, rfl⟩ := ih hr fun hus =>
        hne ⟨by rw [List.getLast?_append, hus.1]; rfl, hus.2⟩
      exact ⟨m :: ms₁, ms₂, rfl, rfl, rfl⟩
    · by_cases hu : us = []
      · subst hu
        exact ⟨[m], ms, rfl, by simpa using hs.symm, rfl⟩
      · by_cases ha : as = []
        · subst ha
          exact ⟨[], m :: ms, rfl, rfl, by rw [List.flatMap_cons, hs]; rfl⟩
        · obtain ⟨h1, h2⟩ := filler_of_cut hs ha hu
          exact absurd ⟨h1, by rw [List.head?_append, h2]; rfl⟩ hne

theorem shown_ends (filler : Char) (m : Char × Bool) :
    (shown filler m = [m.1] ∧ (m.2 = true → m.1 = '\n')) ∨
    m.2 = true ∧ (shown filler m).getLast? = some filler ∧
      (shown filler m).head? = some filler := by
  rcases shown_eq filler m with h | ⟨hm, h⟩
  · exact Or.inl h
  · have hpos := m.1.utf8Size_pos
    obtain ⟨n, hn⟩ : ∃ n, m.1.utf8Size = n + 1 := ⟨_, (Nat.succ_pred_eq_of_pos hpos).symm⟩
    refine Or.inr ⟨hm, ?_, ?_⟩
    · rw [h, hn]
      simp [List.getLast?_replicate]
    · rw [h, hn, List.replicate_succ]
      rfl

end

/-! ### Edges -/

section

variable {filler : Char} {ms : List (Char × Bool)} {gap : Text}

/-- A break that is shown in front of a place, up to spaces, is one of the text: behind a filler
that is a space, the first character of the place is not covered. -/
theorem exists_gap_left (hf : Fills filler) (hgap : ∀ c ∈ gap, c = ' ') {n : Char × Bool}
    (hchain : (ms ++ [n]).IsChain (Seam filler)) (hn : n.2 = true → filler = 'x')
    (hline : n.2 = false → n.1 ≠ '\n') {as : Text} (hms : ms.flatMap (shown filler) = as ++ gap)
    (has : ∃ c ∈ as.getLast?, isBreak c) :
    ∃ us g, ms.map Prod.fst = us ++ g ∧ (∀ c ∈ g, c = ' ') ∧ ∀ c ∈ us.getLast?, isBreak c := by
  have hx : ¬ isBreak 'x' := by decide
  obtain ⟨b, hb, hbreak⟩ := has
  induction ms using List.reverseRecOn generalizing n gap with
  | nil =>
    rw [List.flatMap_nil, eq_comm, List.append_eq_nil_iff] at hms
    rw [hms.1] at hb
    cases hb
  | append_singleton ms m ih =>
    rw [List.flatMap_append, List.flatMap_singleton] at hms
    have hseam : Seam filler m n := by
      rw [List.append_assoc] at hchain
      exact (List.isChain_append_cons_cons.mp hchain).2.1
    have hprev : (ms ++ [m]).IsChain (Seam filler) := hchain.left_of_append
    -- the character in front of the place: a space of the gap, or the break
    have hlast : ∀ c, (shown filler m).getLast? = some c →
        (c = ' ' ∧ ∃ gap', gap = gap' ++ [' ']) ∨ gap = [] ∧ c = b := by
      intro c hc
      have hc' := congrArg List.getLast? hms
      rw [List.getLast?_append, hc, Option.some_or] at hc'
      rcases List.eq_nil_or_concat gap with rfl | ⟨gap', d, rfl⟩
      · rw [List.append_nil, hb, Option.some.injEq] at hc'
        exact Or.inr ⟨rfl, hc'⟩
      · rw [List.concat_eq_append] at hc' hgap ⊢
        rw [← List.append_assoc, List.getLast?_concat, Option.some.injEq] at hc'
        obtain rfl := hgap d (by simp)
        exact Or.inl ⟨hc', gap', rfl⟩
    have hwhole : isBreak m.1 → ∃ us g, (ms ++ [m]).map Prod.fst = us ++ g ∧ (∀ c ∈ g, c = ' ') ∧
        ∀ c ∈ us.getLast?, isBreak c := by
      intro hm
      refine ⟨(ms ++ [m]).map Prod.fst, [], by simp, by simp, fun c hc => ?_⟩
      obtain rfl : m.1 = c := by simpa using hc
      exact hm
    rcases shown_ends filler m with ⟨hm, hmn⟩ | ⟨hm, hml, -⟩
    · rcases hlast m.1 (by rw [hm]; rfl) with ⟨hms', gap', rfl⟩ | ⟨rfl, rfl⟩
      · rw [hm, hms', ← List.append_assoc] at hms
        have hcov : m.2 = true → filler = 'x' := fun h => by
          rw [hmn h] at hms'
          exact absurd hms' (by decide)
        obtain ⟨us, g, hus, hg, hlast⟩ := ih (fun c hc => hgap c (List.mem_append_left _ hc)) hprev
          hcov (fun _ => by rw [hms']; decide) (List.append_cancel_right hms)
        refine ⟨us, g ++ [' '], by simp [hus, hms'], fun c hc => ?_, hlast⟩
        rcases List.mem_append.mp hc with hc | hc
        · exact hg c hc
        · exact List.mem_singleton.mp hc
      · exact hwhole hbreak
    · rcases hf with rfl | rfl
      · cases hn2 : n.2 with
        | true => exact absurd (hn hn2) (by decide)
        | false => exact hwhole ((hseam.2 hm hn2).resolve_right (hline hn2))
      · rcases hlast _ hml with ⟨h, -⟩ | ⟨-, rfl⟩
        · exact absurd h (by decide)
        · exact absurd hbreak hx

/-- What is shown behind a place, up to spaces, stands there in the text, unless covering starts
there. -/
theorem exists_gap_right (hf : Fills filler) (hgap : ∀ c ∈ gap, c = ' ') {m : Char × Bool}
    (hchain : (m :: ms).IsChain (Seam filler)) (hm : m.2 = true → filler = 'x') {p : Char → Prop}
    (hslash : p '/') (hx : ¬ p 'x') {bs : Text}
    (hms : ms.flatMap (shown filler) = gap ++ bs) (hbs : ∀ c ∈ bs.head?, p c) :
    ∃ g us, ms.map Prod.fst = g ++ us ∧ (∀ c ∈ g, c = ' ') ∧ ∀ c ∈ us.head?, p c := by
  induction ms generalizing m gap with
  | nil => exact ⟨[], [], rfl, by simp, by simp⟩
  | cons n ms ih =>
    rw [List.flatMap_cons] at hms
    obtain ⟨hseam, hnext⟩ := List.isChain_cons_cons.mp hchain
    have hfirst : ∀ c, (shown filler n).head? = some c →
        (c = ' ' ∧ ∃ gap', gap = ' ' :: gap') ∨ gap = [] ∧ p c := by
      intro c hc
      have hc' := congrArg List.head? hms
      rw [List.head?_append, hc, Option.some_or] at hc'
      cases gap with
      | nil => exact Or.inr ⟨rfl, hbs c hc'.symm⟩
      | cons d gap' =>
        obtain rfl := hgap d (by simp)
        exact Or.inl ⟨Option.some.inj hc', gap', rfl⟩
    have hwhole : p n.1 → ∃ g us, (n :: ms).map Prod.fst = g ++ us ∧ (∀ c ∈ g, c = ' ') ∧
        ∀ c ∈ us.head?, p c := by
      intro hn
      refine ⟨[], (n :: ms).map Prod.fst, rfl, by simp, fun c hc => ?_⟩
      obtain rfl : n.1 = c := by simpa using hc
      exact hn
    rcases shown_ends filler n with ⟨hn, hnn⟩ | ⟨hn, -, hnh⟩
    · rcases hfirst n.1 (by rw [hn]; rfl) with ⟨hns, gap', rfl⟩ | ⟨rfl, hp⟩
      · rw [hn, hns] at hms
        have hcov : n.2 = true → filler = 'x' := fun h => by
          rw [hnn h] at hns
          exact absurd hns (by decide)
        obtain ⟨g, us, hus, hg, hhead⟩ := ih (fun c hc => hgap c (List.mem_cons_of_mem _ hc)) hnext
          hcov (List.cons.inj hms).2
        refine ⟨' ' :: g, us, by simp [hus, hns], fun c hc => ?_, hhead⟩
        rcases List.mem_cons.mp hc with hc | hc
        · exact hc
        · exact hg c hc
      · exact hwhole hp
    · rcases hf with rfl | rfl
      · cases hm2 : m.2 with
        | true => exact absurd (hm hm2) (by decide)
        | false =>
          refine hwhole ?_
          rw [hseam.1 hm2 hn]
          exact hslash
      · rcases hfirst _ hnh with ⟨h, -⟩ | ⟨-, h⟩
        · exact absurd h (by decide)
        · exact absurd h hx

end

section

variable {filler : Char} {cs as gap bs : Text}

/-- **A break in front of a place of a mask is one of the text**, up to spaces. -/
theorem Masks.leftEdge (h : Masks filler cs (as ++ gap ++ bs)) (hf : Fills filler)
    (has : ∃ c ∈ as.getLast?, isBreak c) (hgap : ∀ c ∈ gap, c = ' ')
    (hbs : ∃ c ∈ bs.head?, c ≠ ' ' ∧ c ≠ '\n') : cs.LeftEdge (as ++ gap).size := by
  obtain ⟨marks, rfl, hms, hchain⟩ := h
  have hf1 : filler.utf8Size = 1 := hf.utf8Size_eq
  obtain ⟨b, hb, hb1, hb2⟩ := hbs
  have hcut : ¬ ((as ++ gap).getLast? = some filler ∧ bs.head? = some filler) := by
    rintro ⟨h1, h2⟩
    obtain rfl := Option.some.inj (h2.symm.trans hb)
    rcases List.eq_nil_or_concat gap with rfl | ⟨gap, d, rfl⟩
    · obtain ⟨c, hc, hbreak⟩ := has
      rw [List.append_nil, hc, Option.some.injEq] at h1
      subst h1
      rcases hf with rfl | rfl
      · exact hb1 rfl
      · exact absurd hbreak (by decide)
    · rw [List.concat_eq_append] at h1 hgap
      rw [← List.append_assoc, List.getLast?_concat, hgap d (by simp), Option.some.injEq] at h1
      exact hb1 h1.symm
  obtain ⟨ms₁, ms₂, rfl, has', hbs'⟩ := exists_marks_cut hms.symm hcut
  cases ms₂ with
  | nil =>
    rw [hbs'] at hb
    cases hb
  | cons n ms₂ =>
    have hhead : ∀ c, (shown filler n).head? = some c → c = b := by
      intro c hc
      rw [hbs', List.flatMap_cons, List.head?_append, hc, Option.some_or] at hb
      exact Option.some.inj hb
    have hn : (n.2 = true → filler = 'x') ∧ (n.2 = false → n.1 ≠ '\n') := by
      rcases shown_ends filler n with ⟨hn, hnn⟩ | ⟨hn, -, hnh⟩
      · obtain rfl := hhead n.1 (by rw [hn]; rfl)
        exact ⟨fun h => absurd (hnn h) hb2, fun _ => hb2⟩
      · obtain rfl := hhead filler hnh
        exact ⟨fun _ => hf.resolve_left hb1, fun h => absurd (hn.symm.trans h) (by decide)⟩
    obtain ⟨us, g, hus, hg, hlast⟩ := exists_gap_left hf hgap
      (by
        rw [List.append_cons] at hchain
        exact hchain.left_of_append) hn.1 hn.2 has'.symm has
    refine ⟨us, g, (n :: ms₂).map Prod.fst, ?_, ?_, hg, hlast⟩
    · rw [List.map_append, hus, List.append_assoc]
    · rw [← hus, has', size_flatMap_shown hf1]

/-- **What ends a value behind a place of a mask ends it in the text**, up to spaces. -/
theorem Masks.rightEdge (h : Masks filler cs (as ++ (gap ++ bs))) (hf : Fills filler)
    (has : ∃ c ∈ as.getLast?, c ≠ ' ' ∧ c ≠ '\n') (hgap : ∀ c ∈ gap, c = ' ')
    {x : ValueContext} (hbs : ∀ c ∈ bs.head?, x.ends c) : cs.RightEdge x as.size := by
  obtain ⟨marks, rfl, hms, hchain⟩ := h
  have hf1 : filler.utf8Size = 1 := hf.utf8Size_eq
  obtain ⟨a, ha, ha1, ha2⟩ := has
  have hspace : ¬ x.ends ' ' := fun h => absurd (ValueContext.isBreak_of_ends h) (by decide)
  have hx : ¬ x.ends 'x' := fun h => absurd (ValueContext.isBreak_of_ends h) (by decide)
  have hslash : x.ends '/' := ValueContext.ends_of_isBreak (by decide) (by decide)
  have hcut : ¬ (as.getLast? = some filler ∧ (gap ++ bs).head? = some filler) := by
    rintro ⟨h1, h2⟩
    obtain rfl := Option.some.inj (h1.symm.trans ha)
    cases gap with
    | nil =>
      have := hbs _ h2
      rcases hf with rfl | rfl
      · exact hspace this
      · exact hx this
    | cons d gap =>
      obtain rfl := hgap d (by simp)
      exact ha1 (Option.some.inj h2).symm
  obtain ⟨ms₁, ms₂, rfl, has', hbs'⟩ := exists_marks_cut hms.symm hcut
  rcases List.eq_nil_or_concat ms₁ with rfl | ⟨ms₁, m, rfl⟩
  · rw [has'] at ha
    cases ha
  rw [List.concat_eq_append] at hchain has' ⊢
  have hlast : ∀ c, (shown filler m).getLast? = some c → c = a := by
    intro c hc
    rw [has', List.flatMap_append, List.flatMap_singleton, List.getLast?_append, hc,
      Option.some_or] at ha
    exact Option.some.inj ha
  have hm : m.2 = true → filler = 'x' := by
    intro hm
    rcases shown_ends filler m with ⟨hs, hmn⟩ | ⟨-, hml, -⟩
    · obtain rfl := hlast m.1 (by rw [hs]; rfl)
      exact absurd (hmn hm) ha2
    · obtain rfl := hlast filler hml
      exact hf.resolve_left ha1
  obtain ⟨g, us, hus, hg, hhead⟩ := exists_gap_right hf hgap
    (by
      rw [List.append_assoc, List.singleton_append] at hchain
      exact hchain.right_of_append) hm (p := fun c => x.ends c = true) hslash hx hbs'.symm hbs
  refine ⟨(ms₁ ++ [m]).map Prod.fst, g, us, ?_, ?_, hg, hhead⟩
  · rw [List.map_append, hus]
  · rw [has', size_flatMap_shown hf1]

end

theorem Masks.size_eq {filler : Char} {cs ms : Text} (h : Masks filler cs ms) (hf : Fills filler) :
    ms.size = cs.size := by
  obtain ⟨marks, rfl, rfl, -⟩ := h
  exact size_flatMap_shown (by rcases hf with rfl | rfl <;> rfl)

theorem Masks.exists_part {filler : Char} {as xs bs us vs : Text}
    (h : Masks filler (as ++ (xs ++ bs)) (us ++ vs)) (hf : Fills filler)
    (hus : Text.size us = Text.size as) : ∃ marks : List (Char × Bool), ∃ rest,
      xs = marks.map Prod.fst ∧ vs = marks.flatMap (shown filler) ++ rest := by
  obtain ⟨marks, hcs, hms, -⟩ := h
  have hf1 : filler.utf8Size = 1 := hf.utf8Size_eq
  obtain ⟨ms₁, ms₂, rfl, has, hxs⟩ := List.append_eq_map_iff.mp hcs
  obtain ⟨ms₂, ms₃, rfl, hxs, -⟩ := List.append_eq_map_iff.mp hxs.symm
  rw [List.flatMap_append, List.flatMap_append] at hms
  refine ⟨ms₂, ms₃.flatMap (shown filler), hxs.symm, ?_⟩
  exact (Text.append_inj_size hms (by rw [hus, size_flatMap_shown hf1, has])).2

/-! ### Comments of a style sheet -/

/-- What the first character of a style sheet is, by the state of its reader. -/
def SheetState.Starts : SheetState → Char × Bool → Prop
  | .code _, m => m.2 = true → m.1 = '/'
  | .block _, m => m.2 = true
  | .line, m => m.2 = true ∨ m.1 = '\n'

/-- A style sheet and its mask, from a point on where its reader is in a state. -/
def SheetState.Masks (st : SheetState) (cs ms : Text) : Prop :=
  ∃ marks : List (Char × Bool), cs = marks.map Prod.fst ∧ ms = marks.flatMap (shown ' ') ∧
    marks.IsChain (Seam ' ') ∧ ∀ m ∈ marks.head?, st.Starts m

namespace SheetState

theorem masks_nil (st : SheetState) : st.Masks [] [] := ⟨[], rfl, rfl, .nil, by simp⟩

theorem Masks.cons {st st' : SheetState} {m : Char × Bool} {cs ms : Text} (h : st'.Masks cs ms)
    (hm : st.Starts m) (hseam : ∀ n, st'.Starts n → Seam ' ' m n) :
    st.Masks (m.1 :: cs) (shown ' ' m ++ ms) := by
  obtain ⟨marks, rfl, rfl, hc, hs⟩ := h
  refine ⟨m :: marks, rfl, rfl, List.isChain_cons.mpr ⟨fun n hn => hseam n (hs n hn), hc⟩, ?_⟩
  intro n hn
  obtain rfl : m = n := by simpa using hn
  exact hm

theorem seam_code {m n : Char × Bool} {fresh : Bool} (hm : m.2 = false)
    (hn : (code fresh).Starts n) : Seam ' ' m n :=
  ⟨fun _ => hn, fun h => absurd (hm.symm.trans h) (by simp)⟩

theorem seam_slash {n : Char × Bool} : Seam ' ' ('/', true) n :=
  ⟨fun h => absurd h (by simp), fun _ _ => Or.inl rfl⟩

theorem seam_covered {c : Char} {n : Char × Bool} (h : n.2 = true ∨ n.1 = '\n') :
    Seam ' ' (c, true) n :=
  ⟨fun h => absurd h (by simp), fun _ hn => Or.inr (h.resolve_left (by simp [hn]))⟩

theorem masks_maskComments (st : SheetState) (cs : Text) : st.Masks cs (maskComments st cs) := by
  fun_induction maskComments st cs with
  | case1 st => exact masks_nil st
  | case2 fresh c =>
    exact (masks_nil (.code fresh)).cons (m := (c, false)) (fun h => absurd h (by simp))
      fun n hn => seam_code rfl hn
  | case3 fresh c d cs h ih =>
    simp only [Bool.and_eq_true, beq_iff_eq] at h
    obtain ⟨rfl, rfl⟩ := h
    have hstar : (block fresh).Masks ('*' :: cs) _ :=
      ih.cons (m := ('*', true)) rfl fun n hn => seam_covered (Or.inl hn)
    exact hstar.cons (m := ('/', true)) (fun _ => rfl) fun _ _ => seam_slash
  | case4 fresh c d cs _ h ih =>
    simp only [Bool.and_eq_true, beq_iff_eq] at h
    obtain ⟨⟨rfl, rfl⟩, -⟩ := h
    have hslash : line.Masks ('/' :: cs) _ :=
      ih.cons (m := ('/', true)) (Or.inl rfl) fun _ _ => seam_slash
    exact hslash.cons (m := ('/', true)) (fun _ => rfl) fun _ _ => seam_slash
  | case5 fresh c d cs _ _ ih =>
    exact ih.cons (m := (c, false)) (fun h => absurd h (by simp)) fun n hn => seam_code rfl hn
  | case6 fresh c =>
    have : (block fresh).Masks [c] _ := (masks_nil (.block fresh)).cons (m := (c, true)) rfl
      fun n hn => seam_covered (Or.inl hn)
    simpa [shown] using this
  | case7 fresh c d cs h ih =>
    simp only [Bool.and_eq_true, beq_iff_eq] at h
    obtain ⟨rfl, rfl⟩ := h
    have hslash : (block fresh).Masks ('/' :: cs) _ :=
      ih.cons (m := ('/', true)) rfl fun _ _ => seam_slash
    exact hslash.cons (m := ('*', true)) rfl fun n hn => seam_covered (Or.inl hn)
  | case8 fresh c d cs _ ih =>
    exact ih.cons (m := (c, true)) rfl fun n hn => seam_covered (Or.inl hn)
  | case9 c cs h ih =>
    rw [beq_iff_eq] at h
    subst h
    exact ih.cons (m := ('\n', false)) (Or.inr rfl) fun n hn => seam_code rfl hn
  | case10 c cs _ ih =>
    exact ih.cons (m := (c, true)) (Or.inl rfl) fun n hn => seam_covered hn

end SheetState

/-- **Comments of a style sheet are masked.** -/
theorem masks_maskComments (cs : Text) : Masks ' ' cs (maskComments (.code true) cs) := by
  obtain ⟨marks, h1, h2, h3, -⟩ := SheetState.masks_maskComments (.code true) cs
  exact ⟨marks, h1, h2, h3⟩

/-! ### Interpolations of a template literal -/

section

variable {filler : Char}

theorem map_fst_const (b : Bool) (cs : Text) : (cs.map (·, b)).map Prod.fst = cs := by
  simp [Function.comp_def]

theorem flatMap_shown_false (cs : Text) : (cs.map (·, false)).flatMap (shown filler) = cs := by
  induction cs with
  | nil => rfl
  | cons c cs ih => rw [List.map_cons, List.flatMap_cons, ih]; rfl

theorem flatMap_shown_true (cs : Text) :
    (cs.map (·, true)).flatMap (shown filler) = coverAll filler cs := by
  rw [List.flatMap_map]
  rfl

theorem isChain_map_const (b : Bool) (cs : Text) : (cs.map (·, b)).IsChain (Seam filler) := by
  induction cs with
  | nil => exact .nil
  | cons c cs ih =>
    refine List.isChain_cons.mpr ⟨fun n hn => ?_, ih⟩
    obtain ⟨d, rfl⟩ : ∃ d, n = (d, b) := by
      rw [List.head?_map, Option.mem_def, Option.map_eq_some_iff] at hn
      obtain ⟨d, -, rfl⟩ := hn
      exact ⟨d, rfl⟩
    exact ⟨fun h1 h2 => absurd (h1.symm.trans h2) (by simp), fun h1 h2 => absurd (h1.symm.trans h2)
      (by simp)⟩

theorem masks_self (cs : Text) : Masks filler cs cs :=
  ⟨cs.map (·, false), (map_fst_const _ _).symm, (flatMap_shown_false _).symm, isChain_map_const _ _⟩

/-- Text that is shown, then text that is covered up to a break, then what follows. -/
theorem Masks.append {cs ms : Text} (h : Masks filler cs ms) (us gs : Text)
    (hhead : gs.head? = some (opener filler)) (hlast : cs = [] ∨ ∃ c ∈ gs.getLast?, isBreak c) :
    Masks filler (us ++ (gs ++ cs)) (us ++ (coverAll filler gs ++ ms)) := by
  obtain ⟨marks, rfl, rfl, hc⟩ := h
  refine ⟨us.map (·, false) ++ (gs.map (·, true) ++ marks), ?_, ?_, ?_⟩
  · rw [List.map_append, List.map_append, map_fst_const, map_fst_const]
  · rw [List.flatMap_append, List.flatMap_append, flatMap_shown_false, flatMap_shown_true]
  refine List.isChain_append.mpr ⟨isChain_map_const _ _, List.isChain_append.mpr
    ⟨isChain_map_const _ _, hc, ?_⟩, ?_⟩
  · intro m hm n hn
    rw [List.getLast?_map, Option.mem_def, Option.map_eq_some_iff] at hm
    obtain ⟨d, hd, rfl⟩ := hm
    refine ⟨fun h => absurd h (by simp), fun _ _ => Or.inl ?_⟩
    rcases hlast with h | ⟨c, hcl, hbreak⟩
    · rw [List.map_eq_nil_iff] at h
      subst h
      cases hn
    · rw [Option.mem_def, hd, Option.some.injEq] at hcl
      rwa [← hcl] at hbreak
  · intro m hm n hn
    rw [List.getLast?_map, Option.mem_def, Option.map_eq_some_iff] at hm
    obtain ⟨d, -, rfl⟩ := hm
    rw [List.head?_append, List.head?_map, hhead] at hn
    obtain rfl : (opener filler, true) = n := by simpa using hn
    exact ⟨fun _ _ => rfl, fun h => absurd h (by simp)⟩

end

theorem masks_interpolations (fuel : Nat) (k : Cursor) :
    Masks 'x' k.rest (maskInterpolations fuel k) := by
  induction fuel generalizing k with
  | zero => exact masks_self _
  | succ fuel ih =>
    rw [maskInterpolations]
    split
    · exact masks_self _
    · next start hstart =>
      obtain ⟨us, hus, ⟨rest, hrest⟩, -⟩ := Cursor.find_eq_some.mp hstart
      have hskip : start.Passes ['$'] (start.skip 1) := by
        have := Cursor.skip_passes 1 start
        rwa [← hrest] at this
      rw [hus.upTo_eq, hus.1]
      split
      · next stop hstop =>
        obtain ⟨e, he, hp⟩ := Markup.expressionEnd_eq_some.mp hstop
        obtain ⟨vs, c, rfl, hc⟩ := he.exists_last (by simp)
        have hgs := hskip.trans hp
        have hbreak : isBreak c := by rcases hc with rfl | rfl <;> rfl
        have := (ih stop).append us (['$'] ++ (vs ++ [c])) rfl
          (Or.inr ⟨c, by rw [← List.append_assoc, List.getLast?_concat]; rfl, hbreak⟩)
        rwa [hgs.upTo_eq, hgs.1, List.append_assoc us]
      · have := (masks_self [] : Masks 'x' [] []).append us start.rest
          (by rw [← hrest]; rfl) (Or.inl rfl)
        simpa using this

/-- **Interpolations of a template literal are masked.** -/
theorem masks_maskInterpolations (cs : Text) :
    Masks 'x' cs (maskInterpolations cs.length (.start cs)) :=
  masks_interpolations cs.length (.start cs)

end DesignLint.Style
