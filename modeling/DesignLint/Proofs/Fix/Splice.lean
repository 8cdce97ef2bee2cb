import DesignLint.Fix.Edit
import DesignLint.Proofs.Sort
import DesignLint.Proofs.Text.Place
import Mathlib.Algebra.GroupWithZero.Nat
import Mathlib.Data.List.Pairwise

/-!
# Splicing

Edits are *spliceable* if each replaces a part of the text that is not empty and no two of them
overlap. `splice` carries out edits from the last to the first; for spliceable edits this is the
same as copying the text from left to right, with the text of each edit in place of its span
(`splice_eq_patch`, `patch`), and the order in which they are listed makes no difference
(`splice_leftToRight`). While the edits are carried out, the part of the text in front of the
last one done is still the original one, so no span is ever out of range (`Ordered.on_undone`,
`Spliceable.in_range`).

`moved es n` is where the offset `n` comes to lie: the text that an edit writes, and the text that
no edit touches, are found there again (`exists_splice_edit`, `slice_splice`).
-/

namespace DesignLint

/-- Edits that can be carried out together. -/
structure Spliceable (cs : Text) (es : List Edit) : Prop where
  on : ∀ e ∈ es, e.span.On cs
  nonempty : ∀ e ∈ es, e.span.start < e.span.stop
  disjoint : es.Pairwise fun a b => a.span.overlaps b.span = false

/-- The text from an offset on, copied with edits in place of their spans. -/
def patch (cs : Text) (o : Nat) : List Edit → Text
  | [] => cs.dropBytes o
  | e :: es => cs.slice ⟨o, e.span.start⟩ ++ e.text ++ patch cs e.span.stop es

/-- Edits from left to right, none starting before an offset. -/
def Ordered (cs : Text) (o : Nat) : List Edit → Prop
  | [] => cs.Boundary o
  | e :: es => cs.Boundary o ∧ o ≤ e.span.start ∧ e.span.On cs ∧ e.span.start < e.span.stop ∧
      Ordered cs e.span.stop es

/-- Edits by the start of their spans. -/
def leftToRight (es : List Edit) : List Edit :=
  es.mergeSort fun a b => a.span.start ≤ b.span.start

/-- Where an offset comes to lie when the edits before it are carried out. -/
def moved (es : List Edit) (n : Nat) : Nat :=
  let before := es.filter (·.span.stop ≤ n)
  n + (before.map fun e => e.text.size).sum -
    (before.map fun e => e.span.stop - e.span.start).sum

/-! ### From left to right -/

namespace Ordered

variable {cs : Text} {o : Nat} {es : List Edit}

theorem boundary (h : Ordered cs o es) : cs.Boundary o := by
  cases es with
  | nil => exact h
  | cons e es => exact h.1

theorem le_start (h : Ordered cs o es) : ∀ e ∈ es, o ≤ e.span.start := by
  induction es generalizing o with
  | nil => simp
  | cons e es ih =>
    obtain ⟨-, hle, -, hlt, hes⟩ := h
    intro f hf
    rcases List.mem_cons.mp hf with rfl | hf
    · exact hle
    · have := ih hes f hf
      omega

theorem on (h : Ordered cs o es) : ∀ e ∈ es, e.span.On cs ∧ e.span.start < e.span.stop := by
  induction es generalizing o with
  | nil => simp
  | cons e es ih =>
    obtain ⟨-, -, hon, hlt, hes⟩ := h
    intro f hf
    rcases List.mem_cons.mp hf with rfl | hf
    · exact ⟨hon, hlt⟩
    · exact ih hes f hf

theorem pairwise (h : Ordered cs o es) :
    es.Pairwise fun a b => a.span.stop ≤ b.span.start := by
  induction es generalizing o with
  | nil => exact .nil
  | cons e es ih =>
    obtain ⟨-, -, -, -, hes⟩ := h
    exact .cons (fun f hf => hes.le_start f hf) (ih hes)

theorem pairwise_lt (h : Ordered cs o es) :
    es.Pairwise fun a b => a.span.start < b.span.start :=
  h.pairwise.imp_of_mem fun {a b} ha _ hab => by
    have := (h.on a ha).2
    omega

theorem mono (h : Ordered cs o es) {n : Nat} (hn : cs.Boundary n)
    (hle : ∀ e ∈ es, n ≤ e.span.start) : Ordered cs n es := by
  cases es with
  | nil => exact hn
  | cons e es => exact ⟨hn, hle e (by simp), h.2.2⟩

theorem append {fs : List Edit} (h : Ordered cs o (es ++ fs)) :
    Ordered cs o es ∧ ∀ n, cs.Boundary n → (∀ f ∈ fs, n ≤ f.span.start) → Ordered cs n fs := by
  induction es generalizing o with
  | nil =>
    exact ⟨h.boundary, fun n hn hle => h.mono hn hle⟩
  | cons e es ih =>
    obtain ⟨hb, hle, hon, hlt, hes⟩ := h
    exact ⟨⟨hb, hle, hon, hlt, (ih hes).1⟩, (ih hes).2⟩

/-- Carrying out edits from the last to the first copies the text from left to right. -/
theorem foldl_apply (h : Ordered cs o es) :
    es.reverse.foldl Edit.apply cs = cs.takeBytes o ++ patch cs o es := by
  induction es generalizing o with
  | nil => exact (Text.take_append_drop h).symm
  | cons e es ih =>
    obtain ⟨hb, hle, hon, hlt, hes⟩ := h
    obtain ⟨hstart, hstop, -⟩ := Span.on_iff.mp hon
    rw [List.reverse_cons, List.foldl_append, ih hes, List.foldl_cons, List.foldl_nil, Edit.apply,
      Text.takeBytes_takeBytes_append hstart hstop (Nat.le_of_lt hlt), patch]
    have hd := Text.dropBytes_size_append (cs.takeBytes e.span.stop) (patch cs e.span.stop es)
    rw [Text.size_takeBytes hstop] at hd
    rw [hd, ← Text.takeBytes_append_slice hb hstart hle]
    simp only [List.append_assoc]

theorem on_undone {e : Edit} (h : Ordered cs o (e :: es)) :
    e.span.On (es.reverse.foldl Edit.apply cs) := by
  obtain ⟨-, -, hon, -, hes⟩ := h
  obtain ⟨hstart, hstop, hle⟩ := Span.on_iff.mp hon
  rw [hes.foldl_apply, ← Text.takeBytes_append_slice hstart hstop hle]
  have := Span.on_append (cs.takeBytes e.span.start) (cs.slice ⟨e.span.start, e.span.stop⟩)
    (patch cs e.span.stop es)
  rwa [Text.size_takeBytes hstart, Text.size_slice hstart hstop hle,
    Nat.add_sub_cancel' hle] at this

/-- When the edits behind an edit have been carried out, the text up to the end of its span is still
the original one. -/
theorem takeBytes_undone {e : Edit} (h : Ordered cs o (e :: es)) :
    (es.reverse.foldl Edit.apply cs).takeBytes e.span.stop = cs.takeBytes e.span.stop := by
  obtain ⟨-, -, hon, -, hes⟩ := h
  have hstop := (Span.on_iff.mp hon).2.1
  have htake := Text.takeBytes_size_append (cs.takeBytes e.span.stop) (patch cs e.span.stop es)
  rw [Text.size_takeBytes hstop] at htake
  rw [hes.foldl_apply, htake]

end Ordered

namespace Spliceable

variable {cs : Text} {es fs : List Edit}

theorem nil (cs : Text) : Spliceable cs [] := ⟨by simp, by simp, .nil⟩

theorem apart (h : Spliceable cs es) {d e : Edit} (hd : d ∈ es) (he : e ∈ es) (hne : d ≠ e) :
    d.span.stop ≤ e.span.start ∨ e.span.stop ≤ d.span.start := by
  have : Std.Symm fun a b : Edit => a.span.overlaps b.span = false :=
    ⟨fun a b hab => by rwa [Span.overlaps_comm]⟩
  exact (Span.overlaps_eq_false.mp (h.disjoint.forall hd he hne)).symm

theorem perm (h : Spliceable cs es) (hp : es.Perm fs) : Spliceable cs fs where
  on e he := h.on e (hp.mem_iff.mpr he)
  nonempty e he := h.nonempty e (hp.mem_iff.mpr he)
  disjoint := hp.pairwise h.disjoint fun {a b} hab => by rwa [Span.overlaps_comm]

theorem ordered (h : Spliceable cs es)
    (hs : es.Pairwise fun a b => a.span.start ≤ b.span.start) {o : Nat} (ho : cs.Boundary o)
    (hle : ∀ e ∈ es, o ≤ e.span.start) : Ordered cs o es := by
  induction es generalizing o with
  | nil => exact ho
  | cons e es ih =>
    obtain ⟨hon, hne, hd⟩ := h
    rw [List.pairwise_cons] at hs hd
    have he := hon e (by simp)
    have hlt := hne e (by simp)
    refine ⟨ho, hle e (by simp), he, hlt, ih ?_ hs.2 (Span.on_iff.mp he).2.1 fun f hf => ?_⟩
    · exact ⟨fun f hf => hon f (by simp [hf]), fun f hf => hne f (by simp [hf]), hd.2⟩
    · have hlt' := hne f (by simp [hf])
      have := hs.1 f hf
      rcases Span.overlaps_eq_false.mp (hd.1 f hf) with h' | h'
      · omega
      · exact h'

theorem ordered_leftToRight (h : Spliceable cs es) : Ordered cs 0 (leftToRight es) := by
  refine (h.perm (List.mergeSort_perm es _).symm).ordered ?_ (Text.boundary_zero cs) (by simp)
  exact pairwise_mergeSort_of (r := fun a b : Edit => a.span.start ≤ b.span.start)
    (fun _ _ _ => Nat.le_trans) (fun a b => Nat.le_total _ _) es

end Spliceable

theorem Ordered.mergeSort_eq {cs : Text} {o : Nat} {es fs : List Edit} (h : Ordered cs o fs)
    (hp : es.Perm fs) :
    (es.mergeSort fun a b => b.span.start ≤ a.span.start) = fs.reverse := by
  have hlt := h.pairwise_lt
  refine @List.Perm.eq_of_pairwise Edit (fun a b => b.span.start ≤ a.span.start) _ _ ?_ ?_ ?_ ?_
  · intro a b ha hb hab hba
    have ha' : a ∈ fs := hp.mem_iff.mp (List.mem_mergeSort.mp ha)
    have hb' : b ∈ fs := List.mem_reverse.mp hb
    have hne : fs.Pairwise fun x y => x.span.start ≠ y.span.start :=
      hlt.imp fun {x y} hxy => by omega
    have : Std.Symm fun x y : Edit => x.span.start ≠ y.span.start := ⟨fun _ _ => Ne.symm⟩
    by_contra h
    exact hne.forall ha' hb' h (by omega)
  · exact pairwise_mergeSort_of (r := fun a b : Edit => b.span.start ≤ a.span.start)
      (fun _ _ _ h h' => Nat.le_trans h' h) (fun a b => Nat.le_total _ _) es
  · rw [List.pairwise_reverse]
    exact hlt.imp fun {a b} hab => Nat.le_of_lt hab
  · exact (List.mergeSort_perm es _).trans (hp.trans fs.reverse_perm.symm)

/-- **Splicing copies from left to right.** -/
theorem Ordered.splice_eq {cs : Text} {es fs : List Edit} (h : Ordered cs 0 fs)
    (hp : es.Perm fs) : splice cs es = patch cs 0 fs := by
  rw [splice, h.mergeSort_eq hp, h.foldl_apply, Text.takeBytes_zero, List.nil_append]

theorem Spliceable.splice_eq_patch {cs : Text} {es : List Edit} (h : Spliceable cs es) :
    splice cs es = patch cs 0 (leftToRight es) :=
  h.ordered_leftToRight.splice_eq (List.mergeSort_perm es _).symm

theorem Spliceable.mergeSort_eq {cs : Text} {es : List Edit} (h : Spliceable cs es) :
    (es.mergeSort fun a b => b.span.start ≤ a.span.start) = (leftToRight es).reverse :=
  h.ordered_leftToRight.mergeSort_eq (List.mergeSort_perm es _).symm

/-- Carrying out spliceable edits from the last to the first, every span is met on the text, and up
to its end the text is still the original one. -/
theorem Spliceable.in_range {cs : Text} {es done todo : List Edit} {e : Edit}
    (h : Spliceable cs es) (hsplit : (es.mergeSort fun a b => b.span.start ≤ a.span.start) =
      done ++ e :: todo) : e.span.On (done.foldl Edit.apply cs) ∧
        (done.foldl Edit.apply cs).takeBytes e.span.stop = cs.takeBytes e.span.stop := by
  have hord := h.ordered_leftToRight
  rw [h.mergeSort_eq, List.reverse_eq_iff, List.reverse_append, List.reverse_cons,
    List.append_assoc] at hsplit
  rw [hsplit] at hord
  -- the edits done are those behind `e`
  have hlater : Ordered cs 0 (e :: done.reverse) :=
    hord.append.2 0 (Text.boundary_zero cs) (by simp)
  have hon := hlater.on_undone
  have htake := hlater.takeBytes_undone
  rw [List.reverse_reverse] at hon htake
  exact ⟨hon, htake⟩

/-- **In whatever order edits are listed, carrying them out copies the text from left to right**,
with the text of each edit in place of its span; and while they are carried out, each span is met
in the part of the text that no edit has changed. -/
theorem Spliceable.splice_leftToRight {cs : Text} {es fs : List Edit} (h : Spliceable cs es)
    (hp : es.Perm fs) :
    (leftToRight es).Perm es ∧
      (leftToRight es).Pairwise (fun a b => a.span.stop ≤ b.span.start) ∧
      splice cs fs = patch cs 0 (leftToRight es) ∧
      ∀ done e todo, (fs.mergeSort fun a b => b.span.start ≤ a.span.start) = done ++ e :: todo →
        e.span.On (done.foldl Edit.apply cs) ∧
          (done.foldl Edit.apply cs).takeBytes e.span.stop = cs.takeBytes e.span.stop := by
  have hord := h.ordered_leftToRight
  have hperm : (leftToRight es).Perm es := List.mergeSort_perm es _
  refine ⟨hperm, hord.pairwise, ?_, fun done e todo hsplit => (h.perm hp).in_range hsplit⟩
  exact hord.splice_eq (hp.symm.trans hperm.symm)

/-- Three edits that touch one another: a removal, an insertion of more than is replaced, and a
replacement of a character of two bytes, which is listed first. -/
theorem Spliceable.splice_leftToRight_adjacent :
    let cs : Text := "aébcd".toList
    let es : List Edit := [⟨⟨1, 3⟩, "e".toList⟩, ⟨⟨0, 1⟩, []⟩, ⟨⟨3, 4⟩, "xéz".toList⟩]
    let fs : List Edit := [⟨⟨0, 1⟩, []⟩, ⟨⟨1, 3⟩, "e".toList⟩, ⟨⟨3, 4⟩, "xéz".toList⟩]
    Spliceable cs es ∧ es.Perm fs ∧ splice cs fs = patch cs 0 (leftToRight es) ∧
      splice cs fs = "exézcd".toList := by
  intro cs es fs
  have hspl : Spliceable cs es := by
    refine ⟨?_, by decide, by decide⟩
    intro e he
    simp only [es, List.mem_cons, List.not_mem_nil, or_false] at he
    rcases he with rfl | rfl | rfl
    · exact ⟨['a'], ['é'], ['b', 'c', 'd'], rfl, rfl⟩
    · exact ⟨[], ['a'], ['é', 'b', 'c', 'd'], rfl, rfl⟩
    · exact ⟨['a', 'é'], ['b'], ['c', 'd'], rfl, rfl⟩
  have hperm : es.Perm fs := by decide
  obtain ⟨-, -, hsplice, -⟩ := hspl.splice_leftToRight hperm
  refine ⟨hspl, hperm, hsplice, ?_⟩
  rw [hsplice, leftToRight, mergeSort_eq_sortUpTo]
  decide

/-! ### Where the text comes to lie -/

theorem Ordered.patch_eq {cs : Text} {o n : Nat} {es : List Edit} (h : Ordered cs n es)
    (ho : cs.Boundary o) (hle : o ≤ n) : patch cs o es = cs.slice ⟨o, n⟩ ++ patch cs n es := by
  cases es with
  | nil => exact (Text.slice_append_dropBytes ho h hle).symm
  | cons e es =>
    obtain ⟨hn, hne, hon, -, -⟩ := h
    simp only [patch]
    rw [← Text.slice_append_slice ho hn (Span.on_iff.mp hon).1 hle hne]
    simp only [List.append_assoc]

/-- At an offset inside no edit, ordered edits fall into those before and those behind it. -/
theorem Ordered.exists_split {cs : Text} {o : Nat} {es : List Edit} (h : Ordered cs o es) {n : Nat}
    (hn : ∀ e ∈ es, e.span.stop ≤ n ∨ n ≤ e.span.start) :
    ∃ fs gs, es = fs ++ gs ∧ (∀ e ∈ fs, e.span.stop ≤ n) ∧ ∀ e ∈ gs, n ≤ e.span.start := by
  induction es generalizing o with
  | nil => exact ⟨[], [], rfl, by simp, by simp⟩
  | cons e es ih =>
    obtain ⟨-, -, -, hlt, hes⟩ := h
    rcases hn e (by simp) with he | he
    · obtain ⟨fs, gs, rfl, hf, hg⟩ := ih hes fun f hf => hn f (by simp [hf])
      refine ⟨e :: fs, gs, rfl, fun f hf' => ?_, hg⟩
      rcases List.mem_cons.mp hf' with rfl | hf'
      · exact he
      · exact hf f hf'
    · refine ⟨[], e :: es, rfl, by simp, fun f hf => ?_⟩
      rcases List.mem_cons.mp hf with rfl | hf
      · exact he
      · have := hes.le_start f hf
        omega

/-- The bytes that edits write, and those that they replace. -/
theorem Ordered.patch_append {cs : Text} {o n : Nat} {fs gs : List Edit}
    (h : Ordered cs o (fs ++ gs)) (hn : cs.Boundary n) (ho : o ≤ n)
    (hf : ∀ e ∈ fs, e.span.stop ≤ n) (hg : ∀ e ∈ gs, n ≤ e.span.start) :
    ∃ before, patch cs o (fs ++ gs) = before ++ patch cs n gs ∧
      before.size + o + (fs.map fun e => e.span.stop - e.span.start).sum =
        n + (fs.map fun e => e.text.size).sum := by
  induction fs generalizing o with
  | nil =>
    refine ⟨_, (h.append.2 n hn hg).patch_eq h.boundary ho, ?_⟩
    rw [Text.size_slice h.boundary hn ho]
    simp
    omega
  | cons e fs ih =>
    obtain ⟨hb, hle, hon, hlt, hes⟩ := h
    obtain ⟨before, hp, hs⟩ := ih hes (hf e (by simp)) fun f hf' => hf f (by simp [hf'])
    refine ⟨cs.slice ⟨o, e.span.start⟩ ++ e.text ++ before, ?_, ?_⟩
    · simp only [List.cons_append, patch, hp, List.append_assoc]
    · simp only [Text.size_append, List.map_cons, List.sum_cons,
        Text.size_slice hb (Span.on_iff.mp hon).1 hle]
      omega

namespace Spliceable

variable {cs : Text} {es : List Edit}

theorem moved_leftToRight (es : List Edit) (n : Nat) : moved (leftToRight es) n = moved es n := by
  have hp := (List.mergeSort_perm es fun a b => a.span.start ≤ b.span.start).filter
    fun e => decide (e.span.stop ≤ n)
  unfold moved leftToRight
  simp only [(hp.map _).sum_nat]

/-- **The text in front of an offset inside no edit takes as many bytes as `moved` says.** -/
theorem exists_splice (h : Spliceable cs es) {n : Nat} (hn : cs.Boundary n)
    (hout : ∀ e ∈ es, e.span.stop ≤ n ∨ n ≤ e.span.start) :
    ∃ before gs, splice cs es = before ++ patch cs n gs ∧ before.size = moved es n ∧
      Ordered cs n gs ∧ ∀ e, e ∈ gs ↔ e ∈ es ∧ n ≤ e.span.start := by
  have hord := h.ordered_leftToRight
  have hmem : ∀ e, e ∈ leftToRight es ↔ e ∈ es := fun e => List.mem_mergeSort
  obtain ⟨fs, gs, hsplit, hf, hg⟩ := hord.exists_split fun e he => hout e ((hmem e).mp he)
  rw [hsplit] at hord
  obtain ⟨before, hp, hs⟩ := hord.patch_append hn (Nat.zero_le n) hf hg
  have hgs : ∀ e ∈ gs, ¬ e.span.stop ≤ n := fun e he => by
    have h1 := hg e he
    have h2 := (hord.on e (by simp [he])).2
    omega
  refine ⟨before, gs, ?_, ?_, hord.append.2 n hn hg, fun e => ?_⟩
  · rw [h.splice_eq_patch, hsplit, hp]
  · have hfilter : (fs ++ gs).filter (fun e => decide (e.span.stop ≤ n)) = fs := by
      rw [List.filter_append, List.filter_eq_self.mpr (by simpa using hf),
        List.filter_eq_nil_iff.mpr (by simpa using hgs), List.append_nil]
    rw [← moved_leftToRight, hsplit, moved, hfilter]
    omega
  · rw [← hmem, hsplit, List.mem_append]
    constructor
    · exact fun he => ⟨Or.inr he, hg e he⟩
    · rintro ⟨he | he, hle⟩
      · have h1 := hf e he
        have h2 := (hord.on e (by simp [he])).2
        omega
      · exact he

/-- **What no edit touches is found again.** -/
theorem slice_splice (h : Spliceable cs es) {s : Span} (hs : s.On cs)
    (hout : ∀ e ∈ es, e.span.stop ≤ s.start ∨ s.stop ≤ e.span.start) :
    (splice cs es).slice ⟨moved es s.start, moved es s.start + (s.stop - s.start)⟩ =
      cs.slice s := by
  obtain ⟨hstart, hstop, hle⟩ := Span.on_iff.mp hs
  obtain ⟨before, gs, hp, hsize, hord, hg⟩ := h.exists_splice hstart fun e he => by
    rcases hout e he with h | h
    · exact Or.inl h
    · exact Or.inr (by omega)
  have hgs : Ordered cs s.stop gs := hord.mono hstop fun e he => by
    obtain ⟨he, hge⟩ := (hg e).mp he
    have hne := h.nonempty e he
    rcases hout e he with h | h
    · omega
    · exact h
  have hsl := Text.size_slice hstart hstop hle
  rw [hp, hgs.patch_eq hstart hle, ← hsize, ← hsl, ← List.append_assoc]
  exact Text.slice_append _ _ _

/-- What an edit writes stands where its span comes to lie, in front of what is copied from the end
of the span on. -/
theorem exists_splice_edit (h : Spliceable cs es) {e : Edit} (he : e ∈ es) :
    ∃ before gs, splice cs es = before ++ e.text ++ patch cs e.span.stop gs ∧
      before.size = moved es e.span.start ∧ Ordered cs e.span.stop gs ∧ ∀ d ∈ gs, d ∈ es := by
  obtain ⟨hstart, -, -⟩ := Span.on_iff.mp (h.on e he)
  have hlt := h.nonempty e he
  obtain ⟨before, gs, hp, hsize, hord, hg⟩ := h.exists_splice hstart fun f hf => by
    by_cases hfe : f = e
    · exact Or.inr (Nat.le_of_eq (by rw [hfe]))
    · have := h.apart hf he hfe
      omega
  -- so the first edit that is not before the start of `e` is `e`
  cases gs with
  | nil => exact absurd ((hg e).mpr ⟨he, Nat.le_refl _⟩) (by simp)
  | cons f gs =>
    obtain ⟨-, hle, -, hflt, hgs⟩ := hord
    have hfe : f = e := by
      by_contra hne
      rcases List.mem_cons.mp ((hg e).mpr ⟨he, Nat.le_refl _⟩) with heq | hmem
      · exact hne heq.symm
      · have h1 := hgs.le_start e hmem
        omega
    subst hfe
    have hzero : cs.slice ⟨f.span.start, f.span.start⟩ = [] := by
      rw [← Text.size_eq_zero, Text.size_slice hstart hstart (Nat.le_refl _), Nat.sub_self]
    refine ⟨before, gs, ?_, hsize, hgs, fun d hd => ((hg d).mp (by simp [hd])).1⟩
    rw [hp, patch, hzero, List.nil_append, List.append_assoc]

end Spliceable

end DesignLint
