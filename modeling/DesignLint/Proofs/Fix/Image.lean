import DesignLint.Proofs.Fix.Splice
import Mathlib.Data.List.Sort

/-!
# Images of spans

When edits are carried out, the ends of a span move by what is written and deleted in front of them
(`Span.image`). If no edit crosses an end of the span, there then stands between them what the edits
inside the span make of the part that it covers (`Spliceable.slice_image`), whatever is done around
it (`Spliceable.spliceWithin_congr`).
-/

namespace DesignLint

/-- Where the ends of a span come to lie when edits are carried out. -/
def Span.image (es : List Edit) (s : Span) : Span := ⟨moved es s.start, moved es s.stop⟩

/-- No end of the span of an edit is crossed: it lies inside of it, or on one side of it. -/
def Edit.Respects (s : Span) (e : Edit) : Prop :=
  e.span.within s ∨ e.span.stop ≤ s.start ∨ s.stop ≤ e.span.start

/-! ### Parts of a part -/

namespace Text

variable {cs : Text} {s t : Span} {o : Nat}

/-- What an offset in a span is in the part that the span covers. -/
theorem boundary_slice (hs : s.On cs) (ho : cs.Boundary o) (h1 : s.start ≤ o) (h2 : o ≤ s.stop) :
    (cs.slice s).Boundary (o - s.start) := by
  obtain ⟨hstart, hstop, -⟩ := Span.on_iff.mp hs
  exact ⟨_, _, (slice_append_slice hstart ho hstop h1 h2).symm, size_slice hstart ho h1⟩

theorem dropBytes_slice (hs : s.On cs) (ho : cs.Boundary o) (h1 : s.start ≤ o) (h2 : o ≤ s.stop) :
    (cs.slice s).dropBytes (o - s.start) = cs.slice ⟨o, s.stop⟩ := by
  obtain ⟨hstart, hstop, -⟩ := Span.on_iff.mp hs
  conv_lhs => rw [← size_slice hstart ho h1]
  rw [← slice_append_slice hstart ho hstop h1 h2, dropBytes_size_append]

theorem slice_slice (hs : s.On cs) (ht : t.On cs) (h1 : s.start ≤ t.start) (h2 : t.stop ≤ s.stop) :
    (cs.slice s).slice ⟨t.start - s.start, t.stop - s.start⟩ = cs.slice t := by
  obtain ⟨-, hstop, -⟩ := Span.on_iff.mp hs
  obtain ⟨hstart', hstop', hle⟩ := Span.on_iff.mp ht
  have hcut := slice_append_slice hstart' hstop' hstop hle h2
  have hsize : t.stop - s.start - (t.start - s.start) = size (cs.slice t) := by
    rw [size_slice hstart' hstop' hle]
    omega
  rw [slice, dropBytes_slice hs hstart' h1 (by omega), ← hcut]
  simp only
  rw [hsize, takeBytes_size_append]

end Text

/-! ### Edits in a part -/

theorem eq_of_pairwise_lt {es fs : List Edit}
    (h : es.Pairwise fun a b => a.span.start < b.span.start)
    (h' : fs.Pairwise fun a b => a.span.start < b.span.start) (hmem : ∀ e, e ∈ es ↔ e ∈ fs) :
    es = fs := by
  have : Std.Irrefl fun a b : Edit => a.span.start < b.span.start := ⟨fun _ => Nat.lt_irrefl _⟩
  have : Std.Antisymm fun a b : Edit => a.span.start < b.span.start :=
    ⟨fun _ _ hab hba => absurd (hab.trans hba) (Nat.lt_irrefl _)⟩
  exact h.eq_of_mem_iff h' hmem

namespace Ordered

variable {cs : Text} {s : Span} {o : Nat} {es fs gs : List Edit}

theorem slice (hs : s.On cs) (h : Ordered cs o fs) (ho : s.start ≤ o) (hos : o ≤ s.stop)
    (hf : ∀ f ∈ fs, f.span.stop ≤ s.stop) :
    Ordered (cs.slice s) (o - s.start) (fs.map (·.shiftLeft s.start)) := by
  induction fs generalizing o with
  | nil => exact Text.boundary_slice hs h ho hos
  | cons f fs ih =>
    obtain ⟨hb, hle, hon, hlt, hfs⟩ := h
    obtain ⟨hstart, hstop, -⟩ := Span.on_iff.mp hon
    have hfstop := hf f (by simp)
    refine ⟨Text.boundary_slice hs hb ho hos, ?_, Span.on_iff.mpr ⟨?_, ?_, ?_⟩, ?_,
      ih hfs (by omega) hfstop fun g hg => hf g (by simp [hg])⟩
    · simp only [Edit.shiftLeft]
      omega
    · exact Text.boundary_slice hs hstart (by omega) (by omega)
    · exact Text.boundary_slice hs hstop (by omega) hfstop
    · simp only [Edit.shiftLeft]
      omega
    · simp only [Edit.shiftLeft]
      omega

/-- Up to the end of a span, the edits in the span make of the text what they make of the part that
the span covers. -/
theorem patch_slice (hs : s.On cs) (h : Ordered cs o fs) (hg : Ordered cs s.stop gs)
    (ho : s.start ≤ o) (hos : o ≤ s.stop) (hf : ∀ f ∈ fs, f.span.stop ≤ s.stop) :
    patch cs o (fs ++ gs) =
      patch (cs.slice s) (o - s.start) (fs.map (·.shiftLeft s.start)) ++ patch cs s.stop gs := by
  induction fs generalizing o with
  | nil =>
    rw [List.nil_append, List.map_nil, patch, Text.dropBytes_slice hs h ho hos]
    exact hg.patch_eq h hos
  | cons f fs ih =>
    obtain ⟨hb, hle, hon, hlt, hfs⟩ := h
    have hfstop := hf f (by simp)
    have hhead := Text.slice_slice hs (t := ⟨o, f.span.start⟩)
      (Span.on_iff.mpr ⟨hb, (Span.on_iff.mp hon).1, hle⟩) ho (by simp only; omega)
    rw [List.cons_append, patch, ih hfs (by omega) hfstop fun g hg => hf g (by simp [hg]),
      List.map_cons, patch]
    simp only [Edit.shiftLeft] at hhead ⊢
    rw [hhead, List.append_assoc _ _ (patch cs _ _)]

end Ordered

namespace Spliceable

variable {cs : Text} {es fs : List Edit} {s : Span}

theorem filter (h : Spliceable cs es) (p : Edit → Bool) : Spliceable cs (es.filter p) where
  on e he := h.on e (List.mem_of_mem_filter he)
  nonempty e he := h.nonempty e (List.mem_of_mem_filter he)
  disjoint := h.disjoint.filter p

theorem exists_within (h : Spliceable cs es) (hs : s.On cs) : ∃ ds, Ordered cs s.start ds ∧
    (∀ d, d ∈ ds ↔ d ∈ es ∧ d.span.within s = true) ∧
    spliceWithin cs s es = patch (cs.slice s) 0 (ds.map (·.shiftLeft s.start)) := by
  obtain ⟨hstart, -, hle⟩ := Span.on_iff.mp hs
  have hmem : ∀ d, d ∈ leftToRight (es.filter (·.span.within s)) ↔
      d ∈ es ∧ d.span.within s = true := fun d => by
    rw [leftToRight, List.mem_mergeSort, List.mem_filter]
  have hord := (h.filter (·.span.within s)).ordered_leftToRight.mono hstart fun d hd =>
    (Span.within_iff.mp ((hmem d).mp hd).2).1
  have hslice := hord.slice hs (Nat.le_refl _) hle fun d hd =>
    (Span.within_iff.mp ((hmem d).mp hd).2).2
  rw [Nat.sub_self] at hslice
  exact ⟨_, hord, hmem, hslice.splice_eq ((List.mergeSort_perm _ _).symm.map _)⟩

/-- **What edits make of a part depends on the edits inside of it.** -/
theorem spliceWithin_congr (h : Spliceable cs es) (h' : Spliceable cs fs) (hs : s.On cs)
    (hmem : ∀ d, d.span.within s = true → (d ∈ es ↔ d ∈ fs)) :
    spliceWithin cs s es = spliceWithin cs s fs := by
  obtain ⟨ds, hord, hds, heq⟩ := h.exists_within hs
  obtain ⟨ds', hord', hds', heq'⟩ := h'.exists_within hs
  obtain rfl : ds = ds' := eq_of_pairwise_lt hord.pairwise_lt hord'.pairwise_lt fun d => by
    rw [hds, hds']
    exact and_congr_left (hmem d)
  rw [heq, heq']

/-- **Between the ends of a span that no edit crosses there stands what the edits inside the span
make of the part that it covers.** -/
theorem slice_image (h : Spliceable cs es) (hs : s.On cs) (hcross : ∀ e ∈ es, e.Respects s) :
    (splice cs es).slice (s.image es) = spliceWithin cs s es := by
  obtain ⟨hstart, hstop, hle⟩ := Span.on_iff.mp hs
  have hside : ∀ e ∈ es, e.span.start < e.span.stop ∧
      (s.start ≤ e.span.start ∧ e.span.stop ≤ s.stop ∨ e.span.stop ≤ s.start ∨
        s.stop ≤ e.span.start) := fun e he =>
    ⟨h.nonempty e he, (hcross e he).imp_left Span.within_iff.mp⟩
  obtain ⟨before, gs, hp, hsize, hord, hgs⟩ := h.exists_splice hstart fun e he => by
    have := hside e he
    omega
  obtain ⟨before', rest, hp', hsize', hord', hrest⟩ := h.exists_splice hstop fun e he => by
    have := hside e he
    omega
  obtain ⟨ds, hin, hds, heq⟩ := h.exists_within hs
  have hdstop : ∀ d ∈ ds, d.span.stop ≤ s.stop := fun d hd =>
    (Span.within_iff.mp ((hds d).mp hd).2).2
  -- from the start of the span on there are the edits inside of it, and then those behind it
  obtain rfl : gs = ds ++ rest := by
    refine eq_of_pairwise_lt hord.pairwise_lt (List.pairwise_append.mpr
      ⟨hin.pairwise_lt, hord'.pairwise_lt, fun d hd e he => ?_⟩) fun e => ?_
    · have h1 := (hin.on d hd).2
      have h2 := hdstop d hd
      have h3 := ((hrest e).mp he).2
      omega
    · rw [hgs, List.mem_append, hds, hrest, Span.within_iff, ← and_or_left]
      refine and_congr_right fun he => ?_
      have := hside e he
      omega
  have hpatch := hin.patch_slice hs hord' (Nat.le_refl _) hle hdstop
  rw [Nat.sub_self, ← heq] at hpatch
  have hbefore : before ++ spliceWithin cs s es = before' := by
    rw [hpatch, ← List.append_assoc, hp', List.append_cancel_right_eq] at hp
    exact hp.symm
  have hsum := congrArg Text.size hbefore
  rw [Text.size_append] at hsum
  rw [hp', ← hbefore, Span.image, ← hsize, ← hsize', ← hsum]
  exact Text.slice_append _ _ _

theorem spliceWithin_span (h : Spliceable cs es) {e : Edit} (he : e ∈ es) :
    spliceWithin cs e.span es = e.text := by
  have hon := h.on e he
  obtain ⟨hstart, hstop, hle⟩ := Span.on_iff.mp hon
  obtain ⟨ds, hord, hds, heq⟩ := h.exists_within hon
  obtain rfl : ds = [e] := by
    refine eq_of_pairwise_lt hord.pairwise_lt (List.pairwise_singleton _ _) fun d => ?_
    rw [hds, List.mem_singleton, Span.within_iff]
    constructor
    · rintro ⟨hd, h1, h2⟩
      by_contra hne
      have h3 := h.nonempty d hd
      have h4 := h.apart hd he hne
      omega
    · rintro rfl
      exact ⟨he, Nat.le_refl _, Nat.le_refl _⟩
  have hempty : cs.slice ⟨e.span.stop, e.span.stop⟩ = [] := by
    rw [← Text.size_eq_zero, Text.size_slice hstop hstop (Nat.le_refl _), Nat.sub_self]
  rw [heq, List.map_singleton, patch, patch, Edit.shiftLeft, Nat.sub_self,
    Text.dropBytes_slice hon hstop hle (Nat.le_refl _), hempty]
  simp [Text.slice]

end Spliceable

end DesignLint
