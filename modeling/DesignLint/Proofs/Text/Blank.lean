import DesignLint.Text.Blank
import Mathlib.Data.List.Infix
import Mathlib.Data.List.TakeWhile

/-!
# Blanks at the ends of a text, and in it

A text is what trimming leaves of it, with blanks at the ends (`exists_trim`, `exists_trimEnd`), and
what is left has no blank at the ends that were trimmed. A blank is no letter and no digit, and its
own lower case. A text has a part if the part stands somewhere in it (`has_iff`). A text that was
collapsed has no blanks but spaces (`mem_collapse`).
-/

namespace DesignLint

theorem not_isAlpha_of_isBlank {c : Char} (h : isBlank c) : c.isAlpha = false := by
  have hn : c.val.toNat = c.toNat := rfl
  simp only [isBlank, Bool.or_eq_true, Bool.and_eq_true, decide_eq_true_eq, beq_iff_eq] at h
  unfold Char.isAlpha Char.isUpper Char.isLower
  simp only [ge_iff_le, UInt32.le_iff_toNat_le, Bool.or_eq_false_iff, Bool.and_eq_false_imp,
    decide_eq_true_eq, decide_eq_false_iff_not]
  have h1 : ('A' : Char).val.toNat = 65 := rfl
  have h2 : ('Z' : Char).val.toNat = 90 := rfl
  have h3 : ('a' : Char).val.toNat = 97 := rfl
  have h4 : ('z' : Char).val.toNat = 122 := rfl
  omega

theorem not_isAlphanum_of_isBlank {c : Char} (h : isBlank c) : c.isAlphanum = false := by
  have hn : c.val.toNat = c.toNat := rfl
  have halpha := not_isAlpha_of_isBlank h
  simp only [isBlank, Bool.or_eq_true, Bool.and_eq_true, decide_eq_true_eq, beq_iff_eq] at h
  unfold Char.isAlphanum Char.isDigit
  simp only [halpha, Bool.false_or, ge_iff_le, UInt32.le_iff_toNat_le, Bool.and_eq_false_imp,
    decide_eq_true_eq, decide_eq_false_iff_not]
  have h1 : ('0' : Char).val.toNat = 48 := rfl
  have h2 : ('9' : Char).val.toNat = 57 := rfl
  omega

theorem toLower_eq_self_of_isBlank {c : Char} (h : isBlank c) : c.toLower = c := by
  unfold Char.toLower
  split
  · next hu =>
    have hn : c.val.toNat = c.toNat := rfl
    simp only [isBlank, Bool.or_eq_true, Bool.and_eq_true, decide_eq_true_eq, beq_iff_eq] at h
    simp only [ge_iff_le, UInt32.le_iff_toNat_le] at hu
    have h1 : ('A' : Char).val.toNat = 65 := rfl
    have h2 : ('Z' : Char).val.toNat = 90 := rfl
    omega
  · rfl

end DesignLint

namespace DesignLint.Text

theorem exists_trimEnd (cs : Text) : ∃ bs, cs = trimEnd cs ++ bs ∧ (∀ c ∈ bs, isBlank c) ∧
    ∀ c ∈ (trimEnd cs).getLast?, ¬ isBlank c := by
  refine ⟨(cs.reverse.takeWhile isBlank).reverse, ?_, fun c hc => ?_, fun c hc => ?_⟩
  · rw [trimEnd, ← List.reverse_append, List.takeWhile_append_dropWhile, List.reverse_reverse]
  · exact List.mem_takeWhile_imp (List.mem_reverse.mp hc)
  · rw [trimEnd, List.getLast?_reverse, Option.mem_def] at hc
    have hne := List.head?_dropWhile_not isBlank cs.reverse
    rw [hc] at hne
    simpa using hne

theorem exists_trimStart (cs : Text) : cs = cs.takeWhile isBlank ++ trimStart cs ∧
    ∀ c ∈ (trimStart cs).head?, ¬ isBlank c := by
  refine ⟨List.takeWhile_append_dropWhile.symm, fun c hc => ?_⟩
  rw [trimStart, Option.mem_def] at hc
  have hne := List.head?_dropWhile_not isBlank cs
  rw [hc] at hne
  simpa using hne

theorem exists_trim (cs : Text) : ∃ bs, cs = cs.takeWhile isBlank ++ trim cs ++ bs ∧
    (∀ c ∈ bs, isBlank c) ∧ (∀ c ∈ (trim cs).head?, ¬ isBlank c) ∧
    ∀ c ∈ (trim cs).getLast?, ¬ isBlank c := by
  obtain ⟨hstart, hhead⟩ := exists_trimStart cs
  obtain ⟨bs, hend, hb, hlast⟩ := exists_trimEnd (trimStart cs)
  refine ⟨bs, ?_, hb, fun c hc => ?_, hlast⟩
  · rw [List.append_assoc, trim, ← hend, ← hstart]
  · refine hhead c ?_
    rw [trim] at hc
    rw [hend, List.head?_append, hc]
    rfl

theorem trim_eq_self {cs : Text} (h : ∀ c ∈ cs, ¬ isBlank c) : trim cs = cs := by
  obtain ⟨bs, hcs, hbs, -⟩ := exists_trim cs
  have hlead : cs.takeWhile isBlank = [] := by
    rw [List.eq_nil_iff_forall_not_mem]
    exact fun c hc => h c (List.takeWhile_subset _ hc) (List.mem_takeWhile_imp hc)
  have hend : bs = [] := by
    rw [List.eq_nil_iff_forall_not_mem]
    exact fun c hc => h c (by rw [hcs]; simp [hc]) (hbs c hc)
  rw [hlead, hend, List.nil_append, List.append_nil] at hcs
  exact hcs.symm

theorem trimEnd_append {cs : Text} (h : ∃ c ∈ cs.getLast?, ¬ isBlank c) (ds : Text) :
    trimEnd (cs ++ ds) = cs ++ trimEnd ds := by
  obtain ⟨c, hc, hb⟩ := h
  have hcs : cs.reverse.dropWhile isBlank = cs.reverse := by
    rw [Option.mem_def, ← List.head?_reverse] at hc
    obtain ⟨bs, hbs⟩ := List.head?_eq_some_iff.mp hc
    rw [hbs]
    exact List.dropWhile_cons_of_neg hb
  unfold trimEnd
  rw [List.reverse_append, List.dropWhile_append]
  split_ifs with hempty
  · rw [List.isEmpty_iff] at hempty
    rw [hcs, hempty, List.reverse_reverse, List.reverse_nil, List.append_nil]
  · rw [List.reverse_append, List.reverse_reverse]

theorem trim_append_blanks {bs : Text} (h : ∀ c ∈ bs, isBlank c) (cs : Text) :
    trim (cs ++ bs) = trim cs := by
  have hend : ∀ ds : Text, trimEnd (ds ++ bs) = trimEnd ds := by
    intro ds
    unfold trimEnd
    rw [List.reverse_append,
      List.dropWhile_append_of_pos fun c hc => h c (List.mem_reverse.mp hc)]
  unfold trim trimStart
  rw [List.dropWhile_append]
  split_ifs with hempty
  · rw [List.isEmpty_iff] at hempty
    rw [hempty, List.dropWhile_eq_nil_iff.mpr h]
  · exact hend _

theorem trim_trimEnd (cs : Text) : trim (trimEnd cs) = trim cs := by
  obtain ⟨bs, hcs, hbs, -⟩ := exists_trimEnd cs
  conv => rhs; rw [hcs, trim_append_blanks hbs]

theorem getLast?_trim {cs : Text} (h : ∃ c ∈ cs.getLast?, ¬ isBlank c) :
    (trim cs).getLast? = cs.getLast? := by
  obtain ⟨c, hc, hblank⟩ := h
  obtain ⟨bs, hcs, hbs, -⟩ := exists_trim cs
  rcases List.eq_nil_or_concat bs with rfl | ⟨bs, b, rfl⟩
  · rw [List.append_nil] at hcs
    cases htrim : trim cs with
    | nil =>
      rw [htrim, List.append_nil] at hcs
      rw [hcs] at hc
      exact absurd (List.mem_takeWhile_imp (List.mem_of_mem_getLast? hc)) hblank
    | cons d ds =>
      rw [htrim] at hcs
      conv => rhs; rw [hcs]
      rw [List.getLast?_append, List.getLast?_eq_some_getLast (List.cons_ne_nil d ds)]
      rfl
  · rw [List.concat_eq_append, ← List.append_assoc] at hcs
    rw [hcs, List.getLast?_concat] at hc
    obtain rfl : b = c := by simpa using hc
    exact absurd (hbs b (by simp)) hblank

/-- Behind some leading blanks stands a blank, or the first character that is left. -/
theorem isBlank_or_mem_head?_trim {p : Char → Bool} (hp : ∀ c, p c → isBlank c) {cs : Text}
    {c : Char} (hc : c ∈ (cs.dropWhile p).head?) : isBlank c ∨ c ∈ (trim cs).head? := by
  by_cases hblank : isBlank c
  · exact Or.inl hblank
  obtain ⟨rest, hrest⟩ := List.head?_eq_some_iff.mp hc
  obtain ⟨bs, hcs, hbs, -⟩ := exists_trim cs
  have hleads : ∀ d ∈ cs.takeWhile p, isBlank d := fun d hd => hp d (List.mem_takeWhile_imp hd)
  have hdrop : cs.dropWhile isBlank = c :: rest := by
    conv => lhs; rw [← List.takeWhile_append_dropWhile (p := p) (l := cs), hrest]
    rw [List.dropWhile_append_of_pos hleads, List.dropWhile_cons_of_neg hblank]
  have hwhole : cs.takeWhile isBlank ++ c :: rest = cs.takeWhile isBlank ++ (trim cs ++ bs) := by
    rw [← hdrop, List.takeWhile_append_dropWhile, ← List.append_assoc]
    exact hcs
  have hsplit := List.append_cancel_left hwhole
  cases htrim : trim cs with
  | nil =>
    rw [htrim, List.nil_append] at hsplit
    exact absurd (hbs c (by rw [← hsplit]; simp)) hblank
  | cons d ds =>
    rw [htrim, List.cons_append, List.cons.injEq] at hsplit
    exact Or.inr (by rw [hsplit.1]; rfl)

theorem has_iff {part cs : Text} : has part cs = true ↔ part <:+: cs := by
  induction cs with
  | nil => simp [has]
  | cons c cs ih => rw [has, Bool.or_eq_true, List.isPrefixOf_iff_prefix, ih, List.infix_cons_iff]

/-! ### Words -/

section

variable {c : Char} {cs : Text}

theorem not_isBlank_of_mem_splitOnP (cs : Text) :
    ∀ w ∈ cs.splitOnP isBlank, ∀ c ∈ w, isBlank c = false := by
  induction cs with
  | nil => simp
  | cons d cs ih =>
    rw [List.splitOnP_cons_eq_if_modifyHead]
    split_ifs with hd
    · exact List.forall_mem_cons.mpr ⟨by simp, ih⟩
    · obtain ⟨v, vs, hvs⟩ := List.exists_cons_of_ne_nil (List.splitOnP_ne_nil isBlank cs)
      rw [hvs] at ih ⊢
      obtain ⟨hv, hvs⟩ := List.forall_mem_cons.mp ih
      have hdv : ∀ c ∈ d :: v, isBlank c = false :=
        List.forall_mem_cons.mpr ⟨Bool.eq_false_iff.mpr hd, hv⟩
      exact List.forall_mem_cons.mpr ⟨hdv, hvs⟩

theorem mem_collapse (h : c ∈ collapse cs) : c = ' ' ∨ isBlank c = false := by
  have hwords : ∀ ws : List Text, (∀ w ∈ ws, ∀ c ∈ w, isBlank c = false) →
      c ∈ [' '].intercalate ws → c = ' ' ∨ isBlank c = false := by
    intro ws hws hc
    induction ws with
    | nil => cases hc
    | cons w ws ih =>
      obtain ⟨hw, hws⟩ := List.forall_mem_cons.mp hws
      by_cases hnil : ws = []
      · rw [hnil, List.intercalate_singleton] at hc
        exact Or.inr (hw c hc)
      · rw [List.intercalate_cons_of_ne_nil hnil, List.mem_append, List.mem_append,
          List.mem_singleton] at hc
        rcases hc with (hc | hc) | hc
        · exact Or.inr (hw c hc)
        · exact Or.inl hc
        · exact ih hws hc
  exact hwords _ (fun w hw => not_isBlank_of_mem_splitOnP cs w (List.mem_of_mem_filter hw)) h

theorem mem_truncate {limit : Nat} (h : c ∈ truncate limit cs) : c ∈ cs ∨ c = '…' := by
  unfold truncate at h
  split_ifs at h
  · exact Or.inl h
  · exact (List.mem_append.mp h).imp List.mem_of_mem_take List.mem_singleton.mp

end

end DesignLint.Text
