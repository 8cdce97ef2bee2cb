import Mathlib.Data.List.Pairwise

/-!
# Sorting

What is sorted by a total order is in order (`pairwise_mergeSort_of`), what is equal in this order
stays in the order that it had (`pairwise_mergeSort_ties`), and what repeats in a list
that is in order stands side by side (`pairwise_eraseReps`). `sortUpTo` sorts lists up to a length
in the way of `List.mergeSort`; unlike that it is evaluated step by step (`mergeSort_eq_sortUpTo`).
-/

namespace DesignLint

variable {α : Type}

theorem pairwise_mergeSort_of {r : α → α → Prop} [DecidableRel r]
    (htrans : ∀ a b c, r a b → r b c → r a c) (htotal : ∀ a b, r a b ∨ r b a) (xs : List α) :
    (xs.mergeSort fun a b => r a b).Pairwise r := by
  have := List.pairwise_mergeSort (fun a b c h h' => decide_eq_true (htrans a b c
    (of_decide_eq_true h) (of_decide_eq_true h'))) (fun a b => by simpa using htotal a b) xs
  exact this.imp of_decide_eq_true

/-! ### Ties -/

section

variable {le : α → α → Bool} (htrans : ∀ a b c, le a b → le b c → le a c)
  (htotal : ∀ a b, le a b || le b a)

include htrans htotal

/-- What is equal in the order of a sort is left as it is. -/
theorem filter_mergeSort {p : α → Bool} (h : ∀ a b, p a → p b → le a b) (xs : List α) :
    (xs.mergeSort le).filter p = xs.filter p := by
  have hpair : (xs.filter p).Pairwise fun a b => le a b = true :=
    List.pairwise_of_forall_mem_list fun a ha b hb =>
      h a b (List.mem_filter.mp ha).2 (List.mem_filter.mp hb).2
  have hsub := (List.sublist_mergeSort htrans htotal hpair List.filter_sublist).filter p
  simp only [List.filter_filter, Bool.and_self] at hsub
  exact (hsub.eq_of_length ((List.mergeSort_perm xs le).filter p).length_eq.symm).symm

/-- **A sort does not change the order of what is equal.** -/
theorem pairwise_mergeSort_ties {r : α → α → Prop} {xs : List α} (h : xs.Pairwise r) :
    (xs.mergeSort le).Pairwise fun a b => le b a → r a b := by
  rw [List.pairwise_iff_forall_sublist] at h ⊢
  intro a b hab hba
  have hle : le a b := by
    simpa using (List.pairwise_mergeSort htrans htotal xs).sublist hab
  -- the members that tie with the two
  let p (x : α) : Bool := le a x && le x a
  have htie : ∀ x y, p x → p y → le x y := by
    intro x y hx hy
    simp only [p, Bool.and_eq_true] at hx hy
    exact htrans x a y hx.2 hy.1
  have ha : p a := by
    have := htotal a a
    simp only [p, Bool.and_self, Bool.or_self] at this ⊢
    exact this
  have hb : p b := by simp [p, hle, hba]
  have hsub := hab.filter p
  rw [filter_mergeSort htrans htotal htie, List.filter_cons_of_pos ha,
    List.filter_cons_of_pos hb] at hsub
  exact h (hsub.trans List.filter_sublist)

end

/-! ### Repetitions -/

section

variable [BEq α] {a b : α} {as : List α}

theorem eraseReps_loop (a : α) (as acc : List α) : List.eraseRepsBy.loop (· == ·) a as acc =
    acc.reverse ++ List.eraseRepsBy.loop (· == ·) a as [] := by
  induction as generalizing a acc with
  | nil => simp [List.eraseRepsBy.loop]
  | cons b as ih =>
    simp only [List.eraseRepsBy.loop]
    cases a == b with
    | true => exact ih a acc
    | false =>
      simp only
      rw [ih b (a :: acc), ih b [a]]
      simp

variable [LawfulBEq α]

theorem eraseReps_cons_self : (a :: a :: as).eraseReps = (a :: as).eraseReps := by
  have heq : (a :: a :: as).eraseReps = List.eraseRepsBy.loop (· == ·) a (a :: as) [] := rfl
  rw [heq, List.eraseRepsBy.loop, beq_self_eq_true]
  rfl

theorem eraseReps_cons_cons (h : a ≠ b) :
    (a :: b :: as).eraseReps = a :: (b :: as).eraseReps := by
  have heq : (a :: b :: as).eraseReps = List.eraseRepsBy.loop (· == ·) a (b :: as) [] := rfl
  rw [heq, List.eraseRepsBy.loop, beq_eq_false_iff_ne.mpr h]
  exact eraseReps_loop b as [a]

theorem mem_eraseReps {x : α} : x ∈ as.eraseReps ↔ x ∈ as := by
  induction as with
  | nil => exact Iff.rfl
  | cons a as ih =>
    cases as with
    | nil => exact Iff.rfl
    | cons b as =>
      by_cases h : a = b
      · subst h
        rw [eraseReps_cons_self, ih]
        simp
      · rw [eraseReps_cons_cons h, List.mem_cons, ih, List.mem_cons (a := x) (b := a)]

theorem pairwise_eraseReps {r : α → α → Prop} (hanti : ∀ a b, r a b → r b a → a = b)
    (h : as.Pairwise r) : as.eraseReps.Pairwise fun a b => r a b ∧ a ≠ b := by
  induction as with
  | nil => exact .nil
  | cons a as ih =>
    obtain ⟨ha, has⟩ := List.pairwise_cons.mp h
    cases as with
    | nil => exact List.pairwise_singleton _ _
    | cons b as =>
      by_cases hab : a = b
      · subst hab
        rw [eraseReps_cons_self]
        exact ih has
      · rw [eraseReps_cons_cons hab]
        refine List.pairwise_cons.mpr ⟨fun c hc => ⟨ha c (mem_eraseReps.mp hc), ?_⟩, ih has⟩
        rintro rfl
        -- a later repetition would stand on both sides of `b`
        rcases List.mem_cons.mp (mem_eraseReps.mp hc) with heq | hmem
        · exact hab heq
        · exact hab (hanti a b (ha b (by simp)) ((List.pairwise_cons.mp has).1 a hmem))

end

/-! ### Sorting step by step -/

/-- Merges lists that together are not longer than a bound. -/
def mergeUpTo (le : α → α → Bool) : Nat → List α → List α → List α
  | 0, xs, ys => xs ++ ys
  | _ + 1, [], ys => ys
  | _ + 1, xs, [] => xs
  | n + 1, a :: xs, b :: ys =>
    if le a b then a :: mergeUpTo le n xs (b :: ys) else b :: mergeUpTo le n (a :: xs) ys

/-- Sorts a list that is not longer than a bound. -/
def sortUpTo (le : α → α → Bool) : Nat → List α → List α
  | n + 1, a :: b :: xs =>
    mergeUpTo le (xs.length + 2) (sortUpTo le n ((a :: b :: xs).take ((xs.length + 3) / 2)))
      (sortUpTo le n ((a :: b :: xs).drop ((xs.length + 3) / 2)))
  | _, xs => xs

theorem merge_eq_mergeUpTo (le : α → α → Bool) {n : Nat} {xs ys : List α}
    (h : xs.length + ys.length ≤ n) : List.merge xs ys le = mergeUpTo le n xs ys := by
  induction n generalizing xs ys with
  | zero =>
    obtain ⟨hx, hy⟩ := Nat.add_eq_zero_iff.mp (Nat.le_zero.mp h)
    rw [List.length_eq_zero_iff.mp hx, List.length_eq_zero_iff.mp hy]
    simp [mergeUpTo]
  | succ n ih =>
    match xs, ys with
    | [], ys => simp [mergeUpTo]
    | a :: xs, [] => simp [mergeUpTo]
    | a :: xs, b :: ys =>
      simp only [List.length_cons] at h
      rw [List.cons_merge_cons, mergeUpTo, ih (by simp only [List.length_cons]; omega),
        ih (by simp only [List.length_cons]; omega)]

theorem mergeSort_eq_sortUpTo (le : α → α → Bool) (xs : List α) :
    xs.mergeSort le = sortUpTo le xs.length xs := by
  suffices h : ∀ n (xs : List α), xs.length ≤ n → xs.mergeSort le = sortUpTo le n xs from
    h _ xs (Nat.le_refl _)
  intro n
  induction n with
  | zero =>
    intro xs h
    rw [List.length_eq_zero_iff.mp (Nat.le_zero.mp h)]
    simp [sortUpTo]
  | succ n ih =>
    intro xs h
    match xs with
    | [] => simp [sortUpTo]
    | [a] => simp [sortUpTo]
    | a :: b :: xs =>
      simp only [List.length_cons] at h
      have hleft := ih ((a :: b :: xs).take ((xs.length + 3) / 2)) (by simp; omega)
      have hright := ih ((a :: b :: xs).drop ((xs.length + 3) / 2)) (by simp; omega)
      rw [List.mergeSort, sortUpTo, ← hleft, ← hright, merge_eq_mergeUpTo (n := xs.length + 2)]
      · simp [List.MergeSort.Internal.splitInTwo]
      · simp [List.MergeSort.Internal.splitInTwo]
        omega

end DesignLint
