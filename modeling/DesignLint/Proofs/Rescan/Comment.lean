import DesignLint.Proofs.Style.Declaration

/-!
# Comments around a value

The mask of a style sheet is that of its front and then that of the rest, in the state in which its
reader arrives there (`maskComments_append`), unless a mark of a comment stands across. A text that
can stand in place of a value (`Fits`) is shown as it is, and leaves its reader behind the start of
a line (`maskComments_of_fits`). So if one such text is replaced by another, the mask changes there
only (`exists_masks`).
-/

namespace DesignLint.Style

/-- What can stand in place of a declared value: it has no comment in it, and its ends are no blanks
or slashes. -/
structure Fits (x : Text) : Prop where
  value : ∀ c ∈ x, isValueChar c
  head : ∃ c ∈ x.head?, c ≠ ' ' ∧ c ≠ '\t'
  last : ∃ c ∈ x.getLast?, ¬ isBlank c ∧ c ≠ '/'
  comment : ¬ ['/', '*'] <:+: x
  first : ∀ c ∈ (x.dropWhile isTagBlank).head?, c ≠ '/'

/-- The state of a reader of a style sheet behind a text. -/
def SheetState.after : SheetState → Text → SheetState
  | st, [] => st
  | .code fresh, [c] => .code (staysFresh fresh c)
  | .code fresh, c :: d :: cs =>
    if c == '/' && d == '*' then after (.block fresh) cs
    else if c == '/' && d == '/' && fresh then after .line cs
    else after (.code (staysFresh fresh c)) (d :: cs)
  | .block fresh, [c] => .block (fresh || c == '\n')
  | .block fresh, c :: d :: cs =>
    if c == '*' && d == '/' then after (.code fresh) cs
    else after (.block (fresh || c == '\n')) (d :: cs)
  | .line, c :: cs => if c == '\n' then after (.code true) cs else after .line cs

theorem getLast?_ne_of_append {a b : Text} {c : Char} (h : (a ++ b).getLast? ≠ some c) :
    b.getLast? ≠ some c := by
  intro hb
  rw [List.getLast?_append, hb] at h
  exact h rfl

/-- **A mask is that of the front and then that of the rest**, unless a mark stands across. -/
theorem maskComments_append {st : SheetState} {cs z : Text}
    (hslash : ∀ c ∈ z.head?, c ≠ '/') (hstar : z.head? = some '*' →
      (maskComments st cs).getLast? ≠ some '/') :
    maskComments st (cs ++ z) = maskComments st cs ++ maskComments (st.after cs) z := by
  fun_induction maskComments st cs with
  | case1 st => simp [SheetState.after]
  | case2 fresh c =>
    cases z with
    | nil => simp [maskComments]
    | cons d zs =>
      have hd : d ≠ '/' := hslash d rfl
      have hc : ¬ (c = '/' ∧ d = '*') := by
        rintro ⟨rfl, rfl⟩
        exact hstar rfl rfl
      simp [maskComments, SheetState.after, hd, hc]
  | case3 fresh c d cs h ih =>
    simp only [List.cons_append, maskComments, SheetState.after, h, if_true]
    rw [ih fun hz => getLast?_ne_of_append (a := [' ', ' ']) (hstar hz)]
  | case4 fresh c d cs h1 h2 ih =>
    simp only [List.cons_append, maskComments, SheetState.after, h1, h2, if_true]
    rw [ih fun hz => getLast?_ne_of_append (a := [' ', ' ']) (hstar hz)]
    rfl
  | case5 fresh c d cs h1 h2 ih =>
    simp only [List.cons_append, maskComments, SheetState.after, h1, h2]
    rw [← List.cons_append, ih fun hz => getLast?_ne_of_append (a := [c]) (hstar hz)]
    rfl
  | case6 fresh c =>
    cases z with
    | nil => simp [maskComments]
    | cons d zs =>
      have hd : d ≠ '/' := hslash d rfl
      simp [maskComments, SheetState.after, hd]
  | case7 fresh c d cs h ih =>
    simp only [List.cons_append, maskComments, SheetState.after, h, if_true]
    rw [ih fun hz => getLast?_ne_of_append (a := [' ', ' ']) (hstar hz)]
  | case8 fresh c d cs h ih =>
    simp only [List.cons_append, maskComments, SheetState.after, h, Bool.false_eq_true, if_false]
    rw [← List.cons_append, ih fun hz => getLast?_ne_of_append (hstar hz), List.append_assoc]
  | case9 c cs h ih =>
    simp only [List.cons_append, maskComments, SheetState.after, h, if_true]
    rw [ih fun hz => getLast?_ne_of_append (a := ['\n']) (hstar hz)]
  | case10 c cs h ih =>
    simp only [List.cons_append, maskComments, SheetState.after, h, Bool.false_eq_true, if_false]
    rw [ih fun hz => getLast?_ne_of_append (hstar hz), List.append_assoc]

/-- What stands in place of a value is shown as it is. -/
theorem maskComments_of_fits {x : Text} (h : Fits x) (fresh : Bool) (rest : Text) :
    maskComments (.code fresh) (x ++ rest) = x ++ maskComments (.code false) rest := by
  obtain ⟨hvalue, -, ⟨l, hl, hblank, hslash⟩, hcomment, hfirst⟩ := h
  replace hfirst : fresh = true → ∀ c ∈ (x.dropWhile isTagBlank).head?, c ≠ '/' := fun _ => hfirst
  induction x generalizing fresh with
  | nil => cases hl
  | cons c cs ih =>
    have hline : c ≠ '\n' := by
      rintro rfl
      exact absurd (hvalue '\n' (by simp)) (by decide)
    cases cs with
    | nil =>
      obtain rfl : c = l := by simpa using hl
      have htag : isTagBlank c = false := by
        rw [Bool.eq_false_iff]
        exact fun h => hblank (isBlank_of_isTagBlank h)
      have hstays : staysFresh fresh c = false := by simp [staysFresh, hline, htag]
      cases rest with
      | nil => simp [maskComments]
      | cons d rest => simp [maskComments, hslash, hstays]
    | cons d ds =>
      have hopen : ¬ (c = '/' ∧ d = '*') := by
        rintro ⟨rfl, rfl⟩
        exact hcomment ⟨[], ds, rfl⟩
      have hfresh : fresh = true → c ≠ '/' := by
        rintro hf rfl
        exact hfirst hf '/' rfl rfl
      have hmarks : ¬ (c = '/' ∧ d = '/' ∧ fresh = true) := fun h => hfresh h.2.2 h.1
      have hstep : maskComments (.code fresh) (c :: d :: ds ++ rest) =
          c :: maskComments (.code (staysFresh fresh c)) (d :: ds ++ rest) := by
        simp only [List.cons_append]
        rw [maskComments, if_neg (by simpa using hopen), if_neg (by simpa [and_assoc] using hmarks)]
      rw [hstep, ih _ (fun e he => hvalue e (List.mem_cons_of_mem _ he))
        (fun h => hcomment (h.trans ⟨[c], [], by simp⟩)) (by simpa using hl) fun hf e he => ?_]
      · rfl
      · simp only [staysFresh, beq_iff_eq, hline, Bool.or_eq_true, false_or, Bool.and_eq_true] at hf
        exact hfirst hf.1 e (by simpa [hf.2] using he)

theorem Fits.exists_last {x : Text} (h : Fits x) : ∃ c ∈ x.getLast?, ¬ isBlank c := by
  obtain ⟨c, hc, hblank, -⟩ := h.last
  exact ⟨c, hc, hblank⟩

theorem Fits.head_ne {x : Text} (h : Fits x) : ∀ c ∈ x.head?, c ≠ '/' := by
  rintro c hc rfl
  obtain ⟨cs, rfl⟩ := List.head?_eq_some_iff.mp hc
  exact h.first '/' rfl rfl

/-- In a comment, nothing is shown but spaces and line breaks. -/
theorem head?_maskComments {st : SheetState} (hst : ∀ fresh, st ≠ .code fresh) {c : Char}
    {cs : Text} (hc : c ≠ '*') : (maskComments st (c :: cs)).head? = some ' ' ∨
      (maskComments st (c :: cs)).head? = some '\n' := by
  have hcover : ∀ ds : Text, (cover ' ' c ++ ds).head? = some ' ' ∨
      (cover ' ' c ++ ds).head? = some '\n' := by
    intro ds
    unfold cover
    split_ifs
    · exact Or.inr rfl
    · obtain ⟨n, hn⟩ := Nat.exists_eq_succ_of_ne_zero (Nat.ne_of_gt c.utf8Size_pos)
      rw [hn, List.replicate_succ]
      exact Or.inl rfl
  cases st with
  | code fresh => exact absurd rfl (hst fresh)
  | block fresh =>
    cases cs with
    | nil => simpa [maskComments] using hcover []
    | cons d ds =>
      rw [maskComments, if_neg (by simp [hc])]
      exact hcover _
  | line =>
    rw [maskComments]
    split_ifs
    · exact Or.inr rfl
    · exact hcover _

/-- **If a text in place of a value is replaced, the mask changes there only.** -/
theorem exists_masks {before after x t us vs : Text} (hx : Fits x) (hstar : '*' ∉ x) (ht : Fits t)
    (hmask : maskComments (.code true) (before ++ (x ++ after)) = us ++ vs)
    (hsize : Text.size us = Text.size before) (hlast : us.getLast? ≠ some '/')
    (hhead : ∃ c ∈ vs.head?, c ≠ ' ' ∧ c ≠ '\n') :
    ∃ rest, vs = x ++ rest ∧
      maskComments (.code true) (before ++ (t ++ after)) = us ++ (t ++ rest) := by
  obtain ⟨c, xs, rfl⟩ : ∃ c xs, x = c :: xs := by
    obtain ⟨c, hc, -⟩ := hx.head
    exact ⟨c, List.head?_eq_some_iff.mp hc⟩
  have hold : maskComments (.code true) (before ++ (c :: xs ++ after)) =
      maskComments (.code true) before ++
        maskComments ((SheetState.code true).after before) (c :: xs ++ after) := by
    refine maskComments_append (fun d hd => hx.head_ne d hd) fun hd => ?_
    obtain rfl : c = '*' := by simpa using hd
    exact absurd (by simp) hstar
  obtain ⟨rfl, rfl⟩ := Text.append_inj_size (hold.symm.trans hmask)
    (by rw [(masks_maskComments before).size_eq (Or.inl rfl), hsize])
  obtain ⟨d, hd, hspace, hline⟩ := hhead
  obtain ⟨fresh, hcode⟩ : ∃ fresh, (SheetState.code true).after before = .code fresh := by
    by_contra hnot
    have hc : c ≠ '*' := fun h => hstar (by simp [h])
    rcases @head?_maskComments _ (not_exists.mp hnot) c (xs ++ after) hc with h | h
    · exact hspace (Option.some.inj (hd.symm.trans h))
    · exact hline (Option.some.inj (hd.symm.trans h))
  refine ⟨maskComments (.code false) after, ?_, ?_⟩
  · rw [hcode, maskComments_of_fits hx]
  · obtain ⟨e, te, rfl⟩ : ∃ e te, t = e :: te := by
      obtain ⟨e, he, -⟩ := ht.head
      exact ⟨e, List.head?_eq_some_iff.mp he⟩
    have hnew : maskComments (.code true) (before ++ (e :: te ++ after)) =
        maskComments (.code true) before ++
          maskComments ((SheetState.code true).after before) (e :: te ++ after) :=
      maskComments_append (fun d hd => ht.head_ne d hd) fun _ => hlast
    rw [hnew, hcode, maskComments_of_fits ht]

end DesignLint.Style
