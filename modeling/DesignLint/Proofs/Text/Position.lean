import DesignLint.Proofs.Text.Place
import DesignLint.Text.Position
import Mathlib.Data.List.DropRight

/-!
# Lines and columns are counted

Binary search finds how many members of an array satisfy a property, if these stand in front
(`partitionPoint_eq`). The offsets at which lines start increase (`pairwise_starts`), so the line of
an offset is one more than the number of line breaks in front of it (`line_position`), also inside
of a character. At a boundary the line that is looked up is in the table, it starts with what
follows the last line break (`exists_start`), and the column is one more than the number of
characters from there on (`position_append`). So positions are in the order of their offsets
(`position_before`).
-/

namespace DesignLint

/-! ### Binary search -/

section

variable {α : Type} {p : α → Bool} {xs : Array α}

/-- The members that satisfy a property are the first ones, up to an index. -/
def PartitionedAt (p : α → Bool) (xs : Array α) (n : Nat) : Prop :=
  n ≤ xs.size ∧ ∀ i (h : i < xs.size), p xs[i] ↔ i < n

theorem PartitionedAt.countP_eq {n : Nat} (h : PartitionedAt p xs n) : xs.toList.countP p = n := by
  obtain ⟨hn, hp⟩ := h
  have htake : (xs.toList.take n).countP p = n := by
    rw [List.countP_eq_length.mpr, List.length_take, Array.length_toList, Nat.min_eq_left hn]
    intro x hx
    obtain ⟨i, hi, rfl⟩ := List.mem_take_iff_getElem.mp hx
    rw [Array.length_toList] at hi
    exact (hp i (by omega)).mpr (by omega)
  have hdrop : (xs.toList.drop n).countP p = 0 := by
    rw [List.countP_eq_zero]
    intro x hx hpx
    obtain ⟨i, hi, rfl⟩ := List.mem_drop_iff_getElem.mp hx
    rw [Array.length_toList] at hi
    have := (hp (n + i) (by omega)).mp hpx
    omega
  rw [← List.take_append_drop n xs.toList, List.countP_append, htake, hdrop, Nat.add_zero]

/-- Each half of a search keeps what is known of the members in front of it and behind it. -/
theorem partitionedAt_partitionBetween (hxs : xs.toList.Pairwise fun a b => p b → p a)
    {low high : Nat} (hle : low ≤ high) (hsize : high ≤ xs.size)
    (hlow : ∀ i (h : i < xs.size), i < low → p xs[i])
    (hhigh : ∀ i (h : i < xs.size), high ≤ i → ¬ p xs[i]) :
    PartitionedAt p xs (partitionBetween p xs low high) := by
  have hpair := List.pairwise_iff_getElem.mp hxs
  fun_induction partitionBetween p xs low high with
  | case1 low high hlt middle hany ih =>
    have hmiddle : middle < xs.size := by omega
    rw [Array.getElem?_eq_getElem hmiddle, Option.any_some] at hany
    refine ih (by omega) hsize (fun i hi hlt => ?_) hhigh
    rcases Nat.lt_or_eq_of_le (Nat.le_of_lt_succ hlt) with hlt | rfl
    · exact hpair i middle hi hmiddle hlt hany
    · exact hany
  | case2 low high hlt middle hany ih =>
    have hmiddle : middle < xs.size := by omega
    rw [Array.getElem?_eq_getElem hmiddle, Option.any_some] at hany
    refine ih (by omega) (by omega) hlow fun i hi hge hpi => ?_
    rcases Nat.lt_or_eq_of_le hge with hlt | rfl
    · exact hany (hpair middle i hmiddle hi hlt hpi)
    · exact hany hpi
  | case3 low high hge =>
    refine ⟨by omega, fun i hi => ⟨fun hpi => ?_, hlow i hi⟩⟩
    by_contra hlt
    exact hhigh i hi (by omega) hpi

/-- **Binary search counts the members that satisfy a property**, if they stand in front. -/
theorem partitionPoint_eq (hxs : xs.toList.Pairwise fun a b => p b → p a) :
    partitionPoint p xs = xs.toList.countP p :=
  (partitionedAt_partitionBetween hxs (Nat.zero_le _) (Nat.le_refl _)
    (fun _ _ h => absurd h (Nat.not_lt_zero _)) (fun _ h hge => absurd h (by omega))).countP_eq.symm

end

/-! ### Positions -/

/-- One position comes before another: on an earlier line, or further to the left on the same. -/
def Position.Before (p q : Position) : Prop :=
  p.line < q.line ∨ p.line = q.line ∧ p.column < q.column

namespace Text

/-- What stands behind the last line break of a text. -/
def lastLine (cs : Text) : Text := cs.rtakeWhile (· != '\n')

/-- What stands in front of the first line break of a text. -/
def firstLine (cs : Text) : Text := cs.takeWhile (· != '\n')

theorem lastLine_break (cs : Text) : lastLine (cs ++ ['\n']) = [] :=
  List.rtakeWhile_concat_neg _ _ _ (by decide)

theorem lastLine_concat (cs : Text) {c : Char} (hc : c ≠ '\n') :
    lastLine (cs ++ [c]) = lastLine cs ++ [c] :=
  List.rtakeWhile_concat_pos _ _ _ (by simpa using hc)

theorem lastLine_append (as : Text) {us : Text} (h : '\n' ∉ us) :
    lastLine (as ++ us) = lastLine as ++ us := by
  induction us using List.reverseRecOn with
  | nil => simp
  | append_singleton us c ih =>
    obtain ⟨hus, hc⟩ : '\n' ∉ us ∧ c ≠ '\n' := by simpa [eq_comm] using h
    rw [← List.append_assoc, lastLine_concat _ hc, ih hus, List.append_assoc]

/-! ### Line breaks -/

variable {as bs cs : Text} {o b n : Nat}

theorem lineBreaksFrom_append (o : Nat) (as bs : Text) :
    lineBreaksFrom o (as ++ bs) = lineBreaksFrom o as ++ lineBreaksFrom (o + as.size) bs := by
  induction as generalizing o with
  | nil => rfl
  | cons c as ih =>
    rw [List.cons_append, lineBreaksFrom, lineBreaksFrom, size_cons, ← Nat.add_assoc]
    split_ifs with hc
    · obtain rfl := hc
      rw [ih, List.cons_append]
      rfl
    · exact ih _

theorem length_lineBreaksFrom (o : Nat) (cs : Text) :
    (lineBreaksFrom o cs).length = cs.count '\n' := by
  induction cs generalizing o with
  | nil => rfl
  | cons c cs ih =>
    rw [lineBreaksFrom]
    split_ifs with hc
    · rw [List.length_cons, ih, hc, List.count_cons_self]
    · rw [ih, List.count_cons_of_ne hc]

theorem mem_lineBreaksFrom (h : b ∈ lineBreaksFrom o cs) : o ≤ b ∧ b < o + cs.size := by
  induction cs generalizing o with
  | nil => simp [lineBreaksFrom] at h
  | cons c cs ih =>
    rw [lineBreaksFrom] at h
    rw [size_cons]
    split_ifs at h with hc
    · obtain rfl := hc
      have hsize : ('\n' : Char).utf8Size = 1 := rfl
      rcases List.mem_cons.mp h with rfl | h
      · omega
      · have := ih h
        omega
    · have := ih h
      omega

theorem pairwise_lineBreaksFrom (o : Nat) (cs : Text) :
    (lineBreaksFrom o cs).Pairwise (· < ·) := by
  induction cs generalizing o with
  | nil => exact .nil
  | cons c cs ih =>
    rw [lineBreaksFrom]
    split_ifs
    · exact List.pairwise_cons.mpr ⟨fun b hb => (mem_lineBreaksFrom hb).1, ih _⟩
    · exact ih _

theorem countP_lineBreaks_append (as bs : Text) :
    (as ++ bs).lineBreaks.countP (· < as.size) = as.count '\n' := by
  rw [lineBreaks, lineBreaksFrom_append, List.countP_append, ← length_lineBreaksFrom 0,
    List.countP_eq_length.mpr, List.countP_eq_zero.mpr, Nat.add_zero]
  · intro b hb
    have := mem_lineBreaksFrom hb
    simp only [decide_eq_true_eq]
    omega
  · intro b hb
    have := mem_lineBreaksFrom hb
    simp only [decide_eq_true_eq]
    omega

/-! ### The table -/

theorem toList_starts (cs : Text) :
    (LineIndex.ofText cs).starts.toList = 0 :: cs.lineBreaks.map (· + 1) := rfl

/-- **The offsets at which lines start increase.** -/
theorem pairwise_starts (cs : Text) : (LineIndex.ofText cs).starts.toList.Pairwise (· < ·) := by
  rw [toList_starts]
  refine List.pairwise_cons.mpr ⟨fun s hs => ?_, List.pairwise_map.mpr ?_⟩
  · obtain ⟨b, -, rfl⟩ := List.mem_map.mp hs
    exact Nat.succ_pos b
  · exact (pairwise_lineBreaksFrom 0 cs).imp Nat.succ_lt_succ

theorem line_ofText (cs : Text) (n : Nat) :
    (LineIndex.ofText cs).line n = 1 + cs.lineBreaks.countP (· < n) := by
  have hsorted : (LineIndex.ofText cs).starts.toList.Pairwise fun a b =>
      decide (b ≤ n) → decide (a ≤ n) := by
    refine (pairwise_starts cs).imp fun hab hb => ?_
    rw [decide_eq_true_eq] at hb ⊢
    omega
  rw [LineIndex.line, partitionPoint_eq hsorted, toList_starts, List.countP_cons_of_pos (by simp),
    List.countP_map, Nat.add_comm]
  rfl

/-- **The line of an offset** is one more than the number of line breaks in front of it. -/
theorem line_position (cs : Text) (n : Nat) :
    (cs.position n).line = 1 + cs.lineBreaks.countP (· < n) := line_ofText cs n

/-- **Where the last line of a part of a text starts** stands in the table. -/
theorem exists_start (as bs : Text) :
    ∃ front, as = front ++ lastLine as ∧
      (LineIndex.ofText (as ++ bs)).starts[as.count '\n']? = some front.size := by
  rw [← Array.getElem?_toList, toList_starts, lineBreaks, lineBreaksFrom_append, List.map_append,
    ← List.cons_append, List.getElem?_append_left (by simp [length_lineBreaksFrom])]
  induction as using List.reverseRecOn with
  | nil => exact ⟨[], rfl, rfl⟩
  | append_singleton as c ih =>
    obtain ⟨front, hfront, hstart⟩ := ih
    rw [lineBreaksFrom_append, List.map_append, ← List.cons_append, List.count_append]
    by_cases hc : c = '\n'
    · obtain rfl := hc
      refine ⟨as ++ ['\n'], by rw [lastLine_break, List.append_nil], ?_⟩
      rw [List.getElem?_append_right (by simp [length_lineBreaksFrom])]
      simp [length_lineBreaksFrom, lineBreaksFrom]
      rfl
    · refine ⟨front, by rw [lastLine_concat as hc, ← List.append_assoc, ← hfront], ?_⟩
      simpa [lineBreaksFrom, hc] using hstart

/-- **The position behind a part of a text**: the line breaks in it, and the characters behind the
last one, each counted from one. -/
theorem position_append (as bs : Text) :
    (as ++ bs).position as.size = ⟨1 + as.count '\n', 1 + (lastLine as).length⟩ := by
  have hline : (LineIndex.ofText (as ++ bs)).line as.size = 1 + as.count '\n' := by
    rw [line_ofText, countP_lineBreaks_append]
  obtain ⟨front, hfront, hstart⟩ := exists_start as bs
  have hslice : (as ++ bs).slice ⟨front.size, as.size⟩ = lastLine as := by
    have h := slice_append front (lastLine as) bs
    rwa [← size_append, ← hfront] at h
  have hcolumn : (LineIndex.ofText (as ++ bs)).column (as ++ bs) as.size =
      1 + (lastLine as).length := by
    rw [LineIndex.column, hline, Nat.add_sub_cancel_left, Array.getD_eq_getD_getElem?, hstart]
    simp only [Option.getD_some, hslice, Nat.add_comm]
  rw [position, hline, hcolumn]

theorem getD_head?_lineBreaksFrom (o : Nat) (cs : Text) :
    (lineBreaksFrom o cs).head?.getD (o + cs.size) = o + (firstLine cs).size := by
  induction cs generalizing o with
  | nil => rfl
  | cons c cs ih =>
    rw [lineBreaksFrom, firstLine]
    split_ifs with hc
    · simp [hc]
    · rw [List.takeWhile_cons_of_pos (by simpa using hc), size_cons, size_cons, ← Nat.add_assoc, ih,
        Nat.add_assoc]
      rfl

/-- **The text of the line of an offset** goes from the line break in front of it up to the next. -/
theorem lineText_append (as bs : Text) :
    (as ++ bs).lineText ((as ++ bs).position as.size).line =
      ((lastLine as ++ firstLine bs).reverse.dropWhile (· == '\r')).reverse := by
  obtain ⟨front, hfront, hstart⟩ := exists_start as bs
  have hnext : (LineIndex.ofText (as ++ bs)).starts[1 + as.count '\n']? =
      (lineBreaksFrom as.size bs).head?.map (· + 1) := by
    rw [← Array.getElem?_toList, toList_starts, lineBreaks, lineBreaksFrom_append, Nat.zero_add,
      Nat.add_comm, List.getElem?_cons_succ, List.map_append,
      List.getElem?_append_right (by simp [length_lineBreaksFrom])]
    simp [length_lineBreaksFrom, List.head?_eq_getElem?]
  have hstop : ((lineBreaksFrom as.size bs).head?.map (· + 1)).map (· - 1) =
      (lineBreaksFrom as.size bs).head? := by
    rw [Option.map_map]
    exact Option.map_id_apply
  have hrest : firstLine bs ++ bs.dropWhile (· != '\n') = bs := List.takeWhile_append_dropWhile
  have hslice : (as ++ bs).slice ⟨front.size, as.size + (firstLine bs).size⟩ =
      lastLine as ++ firstLine bs := by
    have h := slice_append front (lastLine as ++ firstLine bs) (bs.dropWhile (· != '\n'))
    rwa [List.append_assoc, List.append_assoc, hrest, ← List.append_assoc, ← hfront, size_append,
      ← Nat.add_assoc, ← size_append, ← hfront] at h
  rw [position_append, lineText, LineIndex.lineText]
  simp only [Nat.add_sub_cancel_left, Array.getD_eq_getD_getElem?, hstart, Option.getD_some, hnext,
    hstop, size_append, getD_head?_lineBreaksFrom, hslice]

/-- **Positions are in the order of their offsets.** -/
theorem position_before {m n : Nat} (hm : cs.Boundary m) (hn : cs.Boundary n) (h : m < n) :
    (cs.position m).Before (cs.position n) := by
  obtain ⟨as, bs, rfl, rfl⟩ := hm
  obtain ⟨vs, ds, hcs, rfl⟩ := hn
  obtain ⟨us, rfl, rfl⟩ := append_of_size_le hcs (Nat.le_of_lt h)
  rw [position_append, ← List.append_assoc, position_append]
  unfold Position.Before
  simp only [List.count_append]
  by_cases hus : '\n' ∈ us
  · have := List.count_pos_iff.mpr hus
    omega
  · have hlen : 0 < us.length := by
      rw [List.length_pos_iff]
      rintro rfl
      simp at h
    rw [List.count_eq_zero.mpr hus, lastLine_append as hus, List.length_append]
    omega

end Text

end DesignLint
