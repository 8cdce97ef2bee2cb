import DesignLint.Text.Basic
import Mathlib.Data.List.TakeWhile

/-!
# Places in a text

An offset is a *boundary* of a text if the text can be cut there, and a span lies *on* a text if it
covers a part of it, which is what `Text.slice` gives back (`Span.On.slice_eq`). A cursor is *in* a
text if it is the point that its offset says, with what really follows there.

All scanners move cursors to the right. `k.Passes used l` says that `used` stands between the
points `k` and `l`; each operation on cursors passes a known text (`skipWhile_passes`,
`skipText_passes`, `find_eq_some`, …), and between two points of a text lies a span on it
(`Cursor.Passes.on`).
-/

namespace DesignLint

namespace Text

theorem size_pos {cs : Text} (h : cs ≠ []) : 0 < size cs := by
  obtain ⟨c, cs, rfl⟩ := List.exists_cons_of_ne_nil h
  have := c.utf8Size_pos
  simp only [size_cons]
  omega

theorem size_eq_zero {cs : Text} : size cs = 0 ↔ cs = [] := by
  constructor
  · intro h
    by_contra hne
    have := size_pos hne
    omega
  · rintro rfl
    rfl

theorem append_inj_size {as bs cs ds : Text} (h : as ++ bs = cs ++ ds) (hs : size as = size cs) :
    as = cs ∧ bs = ds := by
  induction as generalizing cs with
  | nil =>
    have hc : cs = [] := size_eq_zero.mp (by rw [← hs]; rfl)
    subst hc
    exact ⟨rfl, h⟩
  | cons a as ih =>
    cases cs with
    | nil =>
      have := a.utf8Size_pos
      simp only [size_cons, size_nil] at hs
      omega
    | cons c cs =>
      simp only [List.cons_append, List.cons.injEq] at h
      obtain ⟨rfl, h⟩ := h
      obtain ⟨rfl, rfl⟩ := ih h (by simpa using hs)
      exact ⟨rfl, rfl⟩

/-- Of two leading parts of a text the one with fewer bytes leads the other. -/
theorem append_of_size_le {as bs cs ds : Text} (h : as ++ bs = cs ++ ds) (hs : size as ≤ size cs) :
    ∃ us, cs = as ++ us ∧ bs = us ++ ds := by
  rcases List.append_eq_append_iff.mp h with ⟨us, rfl, rfl⟩ | ⟨us, rfl, rfl⟩
  · exact ⟨us, rfl, rfl⟩
  · simp only [size_append] at hs
    have hu : us = [] := size_eq_zero.mp (by omega)
    subst hu
    exact ⟨[], by simp, by simp⟩

/-- The offsets at which a text can be cut. -/
def Boundary (cs : Text) (n : Nat) : Prop := ∃ as bs, cs = as ++ bs ∧ size as = n

theorem boundary_zero (cs : Text) : Boundary cs 0 := ⟨[], cs, rfl, rfl⟩

theorem Boundary.append {cs : Text} {n : Nat} (h : Boundary cs n) (ds : Text) :
    Boundary (cs ++ ds) n := by
  obtain ⟨as, bs, rfl, hn⟩ := h
  exact ⟨as, bs ++ ds, by simp, hn⟩

theorem Boundary.append_left {cs : Text} {n : Nat} (h : Boundary cs n) (bs : Text) :
    Boundary (bs ++ cs) (size bs + n) := by
  obtain ⟨as, ds, rfl, rfl⟩ := h
  exact ⟨bs ++ as, ds, by simp, by simp⟩

theorem take_append_drop {cs : Text} {n : Nat} (h : Boundary cs n) :
    cs.takeBytes n ++ cs.dropBytes n = cs := by
  obtain ⟨as, bs, rfl, rfl⟩ := h
  rw [takeBytes_size_append, dropBytes_size_append]

theorem size_takeBytes {cs : Text} {n : Nat} (h : Boundary cs n) : size (cs.takeBytes n) = n := by
  obtain ⟨as, bs, rfl, rfl⟩ := h
  rw [takeBytes_size_append]

end Text

namespace Span

/-- A span covers a part of a text. -/
def On (cs : Text) (s : Span) : Prop :=
  ∃ as bs ds, cs = as ++ bs ++ ds ∧ s = ⟨Text.size as, Text.size as + Text.size bs⟩

theorem on_append (as bs ds : Text) :
    On (as ++ bs ++ ds) ⟨Text.size as, Text.size as + Text.size bs⟩ := ⟨as, bs, ds, rfl, rfl⟩

theorem on_iff {cs : Text} {s : Span} :
    s.On cs ↔ Text.Boundary cs s.start ∧ Text.Boundary cs s.stop ∧ s.start ≤ s.stop := by
  constructor
  · rintro ⟨as, bs, ds, rfl, rfl⟩
    exact ⟨⟨as, bs ++ ds, by simp, rfl⟩, ⟨as ++ bs, ds, rfl, by simp⟩, by simp⟩
  · rintro ⟨⟨as, us, rfl, ha⟩, ⟨vs, ds, h, hv⟩, hle⟩
    obtain ⟨bs, rfl, rfl⟩ := Text.append_of_size_le h (by omega)
    refine ⟨as, bs, ds, by simp, ?_⟩
    obtain ⟨start, stop⟩ := s
    simp only [Text.size_append] at ha hv ⊢
    rw [mk.injEq]
    omega

namespace On

variable {cs : Text} {s : Span}

theorem slice_eq (h : s.On cs) : ∃ as ds, cs = as ++ cs.slice s ++ ds ∧ Text.size as = s.start ∧
    s.stop = s.start + Text.size (cs.slice s) := by
  obtain ⟨as, bs, ds, rfl, rfl⟩ := h
  rw [Text.slice_append]
  exact ⟨as, ds, rfl, rfl, rfl⟩

theorem append (h : s.On cs) (ds : Text) : s.On (cs ++ ds) := by
  rw [on_iff] at h ⊢
  exact ⟨h.1.append ds, h.2.1.append ds, h.2.2⟩

theorem shift (h : s.On cs) (bs : Text) : (s.shift (Text.size bs)).On (bs ++ cs) := by
  rw [on_iff] at h ⊢
  have h1 := h.1.append_left bs
  have h2 := h.2.1.append_left bs
  simp only [Span.shift, Nat.add_comm _ (Text.size bs)]
  exact ⟨h1, h2, by have := h.2.2; omega⟩

/-- A span that does not cover a character lies on one side of it. -/
theorem beside {us ds : Text} {c : Char} (hs : s.On cs) (hcs : cs = us ++ c :: ds)
    (hc : c ∉ cs.slice s) : s.stop ≤ us.size ∨ us.size + c.utf8Size ≤ s.start := by
  obtain ⟨as, bs, hsplit, hstart, hstop⟩ := hs.slice_eq
  generalize cs.slice s = ws at hc hsplit hstop
  have hsame : as ++ (ws ++ bs) = us ++ c :: ds := by
    rw [← List.append_assoc, ← hsplit, hcs]
  rcases Nat.lt_or_ge us.size as.size with hlt | hle
  · obtain ⟨vs, rfl, hrest⟩ := Text.append_of_size_le hsame.symm (Nat.le_of_lt hlt)
    cases vs with
    | nil => simp at hlt
    | cons v vs =>
      obtain rfl := (List.cons.inj hrest).1
      refine Or.inr ?_
      rw [← hstart, Text.size_append, Text.size_cons]
      omega
  · obtain ⟨vs, rfl, hrest⟩ := Text.append_of_size_le hsame hle
    rcases List.append_eq_append_iff.mp hrest with ⟨xs, rfl, -⟩ | ⟨xs, rfl, hxs⟩
    · refine Or.inl ?_
      simp only [Text.size_append]
      omega
    · cases xs with
      | nil =>
        refine Or.inl ?_
        rw [List.append_nil] at hstop
        rw [Text.size_append]
        omega
      | cons x xs =>
        obtain rfl := (List.cons.inj hxs).1
        exact absurd (by simp) hc

end On

variable {s t u : Span}

theorem overlaps_iff : s.overlaps t = true ↔ s.start < t.stop ∧ t.start < s.stop := by
  simp [overlaps]

theorem overlaps_eq_false : s.overlaps t = false ↔ t.stop ≤ s.start ∨ s.stop ≤ t.start := by
  rw [← Bool.not_eq_true, overlaps_iff]
  omega

theorem overlaps_self : s.overlaps s = true ↔ s.start < s.stop := by
  simp [overlaps]

theorem overlaps_mono (h : s.overlaps u = true) (hstart : t.start ≤ s.start)
    (hstop : s.stop ≤ t.stop) : t.overlaps u = true := by
  rw [overlaps_iff] at h ⊢
  omega

theorem within_iff : s.within t = true ↔ t.start ≤ s.start ∧ s.stop ≤ t.stop := by
  simp [within]

end Span

/-! ### Cutting a text -/

namespace Text

variable {cs : Text} {a b : Nat}

theorem takeBytes_size_add (as bs : Text) (n : Nat) :
    takeBytes (size as + n) (as ++ bs) = as ++ takeBytes n bs := by
  induction as with
  | nil => simp
  | cons c as ih =>
    have h := c.utf8Size_pos
    obtain ⟨m, hm⟩ : ∃ m, size (c :: as) + n = m + 1 :=
      ⟨c.utf8Size + size as + n - 1, by simp; omega⟩
    have hs : m + 1 - c.utf8Size = size as + n := by rw [← hm]; simp; omega
    rw [hm, List.cons_append, takeBytes, hs, ih, List.cons_append]

theorem slice_append_takeBytes (as bs ds : Text) (n : Nat) :
    (as ++ (bs ++ ds)).slice ⟨size as, size as + (size bs + n)⟩ = bs ++ takeBytes n ds := by
  rw [slice, dropBytes_size_append, Nat.add_sub_cancel_left, takeBytes_size_add]

theorem takeBytes_append_slice (ha : Boundary cs a) (hb : Boundary cs b) (h : a ≤ b) :
    cs.takeBytes a ++ cs.slice ⟨a, b⟩ = cs.takeBytes b := by
  obtain ⟨as, bs, ds, rfl, hs⟩ := (Span.on_iff (s := ⟨a, b⟩)).mpr ⟨ha, hb, h⟩
  obtain ⟨rfl, rfl⟩ := Span.mk.inj hs
  have h1 := takeBytes_size_append as (bs ++ ds)
  have h2 := takeBytes_size_append (as ++ bs) ds
  rw [List.append_assoc] at h2
  rw [slice_append, ← size_append, List.append_assoc, h1, h2]

theorem slice_append_dropBytes (ha : Boundary cs a) (hb : Boundary cs b) (h : a ≤ b) :
    cs.slice ⟨a, b⟩ ++ cs.dropBytes b = cs.dropBytes a := by
  obtain ⟨as, bs, ds, rfl, hs⟩ := (Span.on_iff (s := ⟨a, b⟩)).mpr ⟨ha, hb, h⟩
  obtain ⟨rfl, rfl⟩ := Span.mk.inj hs
  rw [slice_append, ← size_append, dropBytes_size_append, List.append_assoc,
    dropBytes_size_append]

theorem size_slice (ha : Boundary cs a) (hb : Boundary cs b) (h : a ≤ b) :
    size (cs.slice ⟨a, b⟩) = b - a := by
  have := congrArg size (takeBytes_append_slice ha hb h)
  rw [size_append, size_takeBytes ha, size_takeBytes hb] at this
  omega

theorem slice_append_slice {n : Nat} (ha : Boundary cs a) (hn : Boundary cs n)
    (hb : Boundary cs b) (h1 : a ≤ n) (h2 : n ≤ b) :
    cs.slice ⟨a, n⟩ ++ cs.slice ⟨n, b⟩ = cs.slice ⟨a, b⟩ := by
  rw [← List.append_right_inj (cs.takeBytes a), ← List.append_assoc,
    takeBytes_append_slice ha hn h1, takeBytes_append_slice hn hb h2,
    takeBytes_append_slice ha hb (Nat.le_trans h1 h2)]

theorem takeBytes_takeBytes_append (ha : Boundary cs a) (hb : Boundary cs b) (h : a ≤ b)
    (ds : Text) : takeBytes a (cs.takeBytes b ++ ds) = cs.takeBytes a := by
  have := takeBytes_size_append (cs.takeBytes a) (cs.slice ⟨a, b⟩ ++ ds)
  rwa [size_takeBytes ha, ← List.append_assoc, takeBytes_append_slice ha hb h] at this

end Text

namespace Cursor

/-- From one point over a text to another. -/
def Passes (k : Cursor) (used : Text) (l : Cursor) : Prop :=
  k.rest = used ++ l.rest ∧ l.offset = k.offset + Text.size used

namespace Passes

variable {k l m : Cursor} {us vs : Text}

theorem refl (k : Cursor) : k.Passes [] k := ⟨rfl, rfl⟩

theorem trans (h : k.Passes us l) (h' : l.Passes vs m) : k.Passes (us ++ vs) m :=
  ⟨by rw [h.1, h'.1, List.append_assoc], by rw [h'.2, h.2, Text.size_append, Nat.add_assoc]⟩

theorem le (h : k.Passes us l) : k.offset ≤ l.offset := by rw [h.2]; omega

theorem lt (h : k.Passes us l) (hu : us ≠ []) : k.offset < l.offset := by
  have := Text.size_pos hu
  rw [h.2]
  omega

theorem upTo_eq (h : k.Passes us l) : k.upTo l = us := by
  unfold upTo
  rw [h.2, Nat.add_sub_cancel_left, h.1, Text.takeBytes_size_append]

end Passes

/-- Being a point of a text. -/
def In (cs : Text) (k : Cursor) : Prop := ∃ before, (start cs).Passes before k

theorem in_start (cs : Text) : In cs (start cs) := ⟨[], .refl _⟩

theorem in_iff {cs : Text} {k : Cursor} :
    k.In cs ↔ ∃ before, cs = before ++ k.rest ∧ k.offset = Text.size before := by
  simp [In, Passes, start]

theorem passes_one (o : Nat) (c : Char) (cs : Text) :
    Passes ⟨o, c :: cs⟩ [c] ⟨o + c.utf8Size, cs⟩ := ⟨rfl, by simp⟩

namespace In

variable {cs us vs : Text} {k l m : Cursor}

theorem passes (h : k.In cs) (hp : k.Passes us l) : l.In cs := by
  obtain ⟨before, hb⟩ := h
  exact ⟨before ++ us, hb.trans hp⟩

theorem size_eq (h : k.In cs) : cs.size = k.offset + Text.size k.rest := by
  obtain ⟨before, hb, ho⟩ := in_iff.mp h
  rw [hb, Text.size_append, ho]

theorem le_size (h : k.In cs) : k.offset ≤ cs.size := by
  rw [h.size_eq]
  exact Nat.le_add_right _ _

theorem ahead (h : k.In cs) (hp : k.Passes us l) (hu : us ≠ []) :
    k.offset < l.offset ∧ l.offset ≤ cs.size := ⟨hp.lt hu, (h.passes hp).le_size⟩

theorem boundary (h : k.In cs) : Text.Boundary cs k.offset := by
  obtain ⟨before, hb, ho⟩ := in_iff.mp h
  exact ⟨before, k.rest, hb, ho.symm⟩

theorem on (h : k.In cs) (hp : k.Passes us l) : Span.On cs ⟨k.offset, l.offset⟩ := by
  obtain ⟨before, rfl, ho⟩ := in_iff.mp h
  refine ⟨before, us, l.rest, by rw [hp.1, List.append_assoc], ?_⟩
  rw [hp.2, ho]

theorem slice_eq (h : k.In cs) (hp : k.Passes us l) : cs.slice ⟨k.offset, l.offset⟩ = us := by
  obtain ⟨before, rfl, ho⟩ := in_iff.mp h
  rw [hp.1, ← List.append_assoc, hp.2, ho, Text.slice_append]

end In

/-! ### What the operations pass -/

theorem skipWhile_eq (p : Char → Bool) (k : Cursor) :
    k.skipWhile p = ⟨k.offset + Text.size (k.rest.takeWhile p), k.rest.dropWhile p⟩ := by
  obtain ⟨o, cs⟩ := k
  unfold skipWhile
  induction cs generalizing o with
  | nil => simp [skipWhile.go]
  | cons c cs ih =>
    rw [skipWhile.go, List.takeWhile_cons, List.dropWhile_cons]
    by_cases h : p c
    · simp only [h, if_true]
      rw [ih (o + c.utf8Size)]
      simp [Nat.add_assoc]
    · simp [h]

theorem skipWhile_passes (p : Char → Bool) (k : Cursor) :
    k.Passes (k.rest.takeWhile p) (k.skipWhile p) := by
  rw [skipWhile_eq]
  exact ⟨List.takeWhile_append_dropWhile.symm, rfl⟩

/-- What a walk over `p` passes satisfies `p`, and the next character does not. -/
theorem exists_skipWhile (p : Char → Bool) (k : Cursor) : ∃ us, k.Passes us (k.skipWhile p) ∧
    (∀ c ∈ us, p c) ∧ ∀ c ∈ (k.skipWhile p).rest.head?, ¬ p c := by
  refine ⟨_, skipWhile_passes p k, fun c hc => List.mem_takeWhile_imp hc, fun c hc => ?_⟩
  rw [skipWhile_eq, Option.mem_def] at hc
  have hne := List.head?_dropWhile_not p k.rest
  rw [hc] at hne
  simpa using hne

theorem skipWhile_append {p : Char → Bool} {us : Text} (hu : ∀ c ∈ us, p c) {vs : Text}
    (hv : ∀ c ∈ vs.head?, ¬ p c) (o : Nat) :
    skipWhile p ⟨o, us ++ vs⟩ = ⟨o + Text.size us, vs⟩ := by
  have hvs : vs.takeWhile p = [] ∧ vs.dropWhile p = vs := by
    cases vs with
    | nil => simp
    | cons c vs => simp [hv c rfl]
  rw [skipWhile_eq]
  simp only [List.takeWhile_append_of_pos hu, List.dropWhile_append_of_pos hu, hvs.1, hvs.2,
    List.append_nil]

theorem skip_passes (n : Nat) (k : Cursor) : k.Passes (k.rest.take n) (k.skip n) := by
  fun_induction skip n k with
  | case1 k => exact ⟨by simp, by simp⟩
  | case2 n o => exact ⟨by simp, by simp⟩
  | case3 n o c cs ih => exact ⟨by simpa using ih.1, by rw [ih.2]; simp [Nat.add_assoc]⟩

theorem skip_append (us vs : Text) (o : Nat) :
    skip us.length ⟨o, us ++ vs⟩ = ⟨o + Text.size us, vs⟩ := by
  obtain ⟨hrest, ho⟩ := skip_passes us.length ⟨o, us ++ vs⟩
  generalize skip us.length ⟨o, us ++ vs⟩ = l at hrest ho ⊢
  obtain ⟨o', rest⟩ := l
  simp only [List.take_left, List.append_cancel_left_eq] at hrest ho
  rw [hrest, ho]

theorem skipText_eq_some {lead : Text} {k l : Cursor} :
    k.skipText lead = some l ↔ k.Passes lead l := by
  unfold skipText
  constructor
  · intro h
    split at h
    · next hp =>
      obtain ⟨cs, hcs⟩ := List.isPrefixOf_iff_prefix.mp hp
      cases h
      exact ⟨by simp [← hcs], rfl⟩
    · cases h
  · rintro ⟨h1, h2⟩
    rw [if_pos (List.isPrefixOf_iff_prefix.mpr ⟨l.rest, h1.symm⟩), h1, ← h2, List.drop_left]

theorem skipText_passes {lead : Text} {k l : Cursor} (h : k.skipText lead = some l) :
    k.Passes lead l := skipText_eq_some.mp h

/-- The found text stands at the point found, and nowhere before it. -/
theorem find_eq_some {lead : Text} {k l : Cursor} :
    k.find lead = some l ↔ ∃ us, k.Passes us l ∧ lead <+: l.rest ∧
      ∀ as bs, us = as ++ bs → bs ≠ [] → ¬ lead <+: bs ++ l.rest := by
  obtain ⟨o, cs⟩ := k
  unfold find
  simp only
  constructor
  · intro h
    fun_induction find.go lead o cs with
    | case1 o hp =>
      cases h
      refine ⟨[], .refl _, List.isPrefixOf_iff_prefix.mp hp, fun as bs hb hne => ?_⟩
      exact absurd (List.append_eq_nil_iff.mp hb.symm).2 hne
    | case2 o hp => cases h
    | case3 o c cs hp =>
      cases h
      refine ⟨[], .refl _, List.isPrefixOf_iff_prefix.mp hp, fun as bs hb hne => ?_⟩
      exact absurd (List.append_eq_nil_iff.mp hb.symm).2 hne
    | case4 o c cs hp ih =>
      obtain ⟨us, hu, hl, hmin⟩ := ih h
      have hcs : cs = us ++ l.rest := hu.1
      refine ⟨c :: us, ⟨by rw [hcs]; rfl, by rw [hu.2]; simp [Nat.add_assoc]⟩, hl, ?_⟩
      intro as bs hab hne
      cases as with
      | nil =>
        subst hab
        rwa [List.cons_append, ← hcs, ← List.isPrefixOf_iff_prefix]
      | cons a as =>
        simp only [List.cons_append, List.cons.injEq] at hab
        exact hmin as bs hab.2 hne
  · rintro ⟨us, ⟨hr, ho⟩, hl, hmin⟩
    obtain ⟨o', rest⟩ := l
    simp only at hr ho hl hmin
    subst hr ho
    induction us generalizing o with
    | nil =>
      have hp := List.isPrefixOf_iff_prefix.mpr hl
      cases rest with
      | nil => simp [find.go, hp]
      | cons d rest => simp [find.go, hp]
    | cons c us ih =>
      have hp : ¬ lead.isPrefixOf (c :: (us ++ rest)) := by
        rw [List.isPrefixOf_iff_prefix]
        exact hmin [] (c :: us) rfl (by simp)
      rw [List.cons_append, find.go, if_neg hp, ih]
      · simp [Nat.add_assoc]
      · intro as bs hab hne
        exact hmin (c :: as) bs (by rw [hab]; rfl) hne

end Cursor

end DesignLint
