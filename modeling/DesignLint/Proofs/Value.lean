import DesignLint.Proofs.Text.Blank
import DesignLint.Value
import Mathlib.Data.List.Chain
import Mathlib.Data.List.TakeDrop

/-!
# What a constant is not

The only bracket that opens in a literal constant is that of a colour function, and no colour
function has a name that ends in `r` (`not_infix_of_isLiteral`). So a text with a call of `var` in
it is no constant. Neither does a comment start or end in a constant, or at its ends
(`slash_of_isLiteral`).
-/

namespace DesignLint

namespace Text

theorem infix_trimStart {xs v : Text} (h : xs <:+: v) (hx : ∀ c ∈ xs, ¬ isBlank c) :
    xs <:+: trimStart v := by
  induction v with
  | nil => exact h
  | cons c cs ih =>
    rw [trimStart, List.dropWhile_cons]
    split
    · next hc =>
      rcases List.infix_cons_iff.mp h with hp | hi
      · cases xs with
        | nil => exact List.nil_infix
        | cons x xs =>
          obtain rfl := (List.cons_prefix_cons.mp hp).1
          exact absurd hc (hx x (by simp))
      · exact ih hi
    · exact h

theorem infix_trim {xs v : Text} (h : xs <:+: v) (hx : ∀ c ∈ xs, ¬ isBlank c) : xs <:+: trim v := by
  have hrev : xs.reverse <:+: trimStart (trimStart v).reverse :=
    infix_trimStart (List.reverse_infix.mpr (infix_trimStart h hx)) (by simpa using hx)
  rw [← List.reverse_infix, List.reverse_reverse] at hrev
  exact hrev

/-- If a text starts with the letters of `lead`, and `b` follows `a` neither in the letters nor
behind them, it follows it nowhere. -/
theorem not_infix_of_dropPrefixFold {a b : Char} {lead w cs : Text}
    (h : dropPrefixFold lead w = some cs) (hb : b ∉ cs)
    (hlead : lead.IsChain fun x y => ¬ (sameLetter x a ∧ sameLetter y b)) : ¬ [a, b] <:+: w := by
  induction lead generalizing w with
  | nil =>
    cases h
    exact fun hi => hb (hi.subset (by simp))
  | cons x lead ih =>
    cases w with
    | nil => cases h
    | cons c w =>
      rw [dropPrefixFold] at h
      split_ifs at h with hc
      intro hi
      rcases List.infix_cons_iff.mp hi with hp | hi
      · obtain ⟨rfl, ds, rfl⟩ := List.cons_prefix_cons.mp hp
        cases lead with
        | nil =>
          cases h
          simp at hb
        | cons y lead =>
          rw [List.cons_append, dropPrefixFold] at h
          split_ifs at h with hy
          exact (List.isChain_cons_cons.mp hlead).1 ⟨hc, hy⟩
      · exact ih h hlead.tail hi

theorem exists_of_dropPrefixFold {lead w cs : Text} (h : dropPrefixFold lead w = some cs) :
    ∃ us, w = us ++ cs ∧ us.length = lead.length ∧ ∀ b ∈ us, ∃ x ∈ lead, sameLetter x b := by
  induction lead generalizing w with
  | nil =>
    cases h
    exact ⟨[], rfl, rfl, by simp⟩
  | cons x lead ih =>
    cases w with
    | nil => cases h
    | cons c w =>
      rw [dropPrefixFold] at h
      split_ifs at h with hc
      obtain ⟨us, rfl, hlength, hletters⟩ := ih h
      refine ⟨c :: us, rfl, by simp [hlength], fun b hb => ?_⟩
      rcases List.mem_cons.mp hb with rfl | hb
      · exact ⟨x, by simp, hc⟩
      · obtain ⟨y, hy, hyb⟩ := hletters b hb
        exact ⟨y, by simp [hy], hyb⟩

end Text

namespace Value

theorem mem_of_takeNumber {v rest : Text} (h : takeNumber v = some rest) {c : Char} (hc : c ∈ v) :
    c ∈ rest ∨ isDecimalDigit c ∨ c = '.' := by
  have hspan : ∀ {us vs ws : Text}, us.span isDecimalDigit = (vs, ws) →
      ∀ d ∈ us, isDecimalDigit d ∨ d ∈ ws := by
    intro us vs ws hs d hd
    rw [List.span_eq_takeWhile_dropWhile, Prod.mk.injEq] at hs
    rw [← List.takeWhile_append_dropWhile (p := isDecimalDigit) (l := us), List.mem_append, hs.2]
      at hd
    exact hd.imp_left fun hd => List.mem_takeWhile_imp hd
  unfold takeNumber at h
  split at h
  · next cs hs =>
    split at h
    · cases h
    · next ds rest' _ hs' =>
      cases h
      rcases hspan hs c hc with hd | hd
      · exact Or.inr (Or.inl hd)
      · rcases List.mem_cons.mp hd with rfl | hd
        · exact Or.inr (Or.inr rfl)
        · exact (hspan hs' c hd).symm.imp_right Or.inl
  · cases h
  · next ds cs _ hs =>
    cases h
    rcases hspan hs c hc with hd | hd
    · exact Or.inr (Or.inl hd)
    · rcases List.mem_cons.mp hd with rfl | hd
      · exact Or.inr (Or.inr rfl)
      · exact (hspan (List.span_eq_takeWhile_dropWhile _ _) c hd).symm.imp_right Or.inl
  · next ds rest' _ _ hs =>
    cases h
    exact (hspan hs c hc).symm.imp_right Or.inl

/-- Characters of dimensions. -/
def isDimensionChar (c : Char) : Bool :=
  isDecimalDigit c || c == '.' || c == '-' || units.any (·.any (sameLetter · c))

theorem isDimensionChar_of_mem {v : Text} (h : isDimension v) {c : Char} (hc : c ∈ v) :
    isDimensionChar c := by
  have hminus : c ∈ dropMinus v ∨ c = '-' := by
    unfold dropMinus
    split
    · simpa [or_comm] using hc
    · exact Or.inl hc
  rcases hminus with hminus | rfl
  swap
  · decide
  unfold isDimension at h
  unfold isDimensionChar
  split at h
  · next rest hr =>
    rcases mem_of_takeNumber hr hminus with hm | hd | rfl
    · rw [Bool.or_eq_true, beq_iff_eq, List.any_eq_true] at h
      rcases h with rfl | ⟨u, hu, h⟩
      · cases hm
      · obtain ⟨us, hus, -, hletters⟩ := Text.exists_of_dropPrefixFold (beq_iff_eq.mp h)
        obtain ⟨x, hx, hsame⟩ := hletters c (by simpa [hus] using hm)
        have : units.any (·.any (sameLetter · c)) = true :=
          List.any_eq_true.mpr ⟨u, hu, List.any_eq_true.mpr ⟨x, hx, hsame⟩⟩
        simp [this]
    · simp [hd]
    · simp
  · cases h

theorem not_infix_of_isColorFunction {v : Text} (h : isColorFunction v) : ¬ ['r', '('] <:+: v := by
  obtain ⟨name, hname, h⟩ := List.any_eq_true.mp h
  split at h
  · next cs hcs =>
    simp only [Bool.and_eq_true, beq_iff_eq, bne_iff_ne, List.all_eq_true] at h
    obtain ⟨⟨hlast, -⟩, hargs⟩ := h
    have hb : '(' ∉ cs := by
      intro hmem
      rw [← List.dropLast_append_getLast? ')' hlast, List.mem_append] at hmem
      rcases hmem with hmem | hmem
      · exact absurd (hargs _ hmem) (by decide +kernel)
      · simp at hmem
    have hchains : ∀ name ∈ colorFunctions,
        name.IsChain fun x y => ¬ (sameLetter x 'r' ∧ sameLetter y '(') := by decide +kernel
    exact Text.not_infix_of_dropPrefixFold hcs hb (hchains name hname)
  · cases h

/-- Characters of constants that are no colour functions. -/
def isPlainChar (c : Char) : Bool :=
  c == '#' || isHexDigit c || isDimensionChar c || c.isAlphanum || " -\"',".toList.contains c

/-- A constant is a colour function, or has plain characters only. -/
theorem isColorFunction_or_of_isLiteral {v : Text} (h : isLiteral v) :
    isColorFunction (Text.trim v) ∨ ∀ c ∈ Text.trim v, isPlainChar c := by
  simp only [isLiteral, Bool.and_eq_true, Bool.or_eq_true] at h
  generalize Text.trim v = w at h
  obtain ⟨-, ((hhex | hcolor) | hdim) | hwords⟩ := h
  · refine Or.inr fun c hc => ?_
    unfold isHexColor at hhex
    split at hhex
    · rw [Bool.and_eq_true, List.all_eq_true] at hhex
      rcases List.mem_cons.mp hc with rfl | hc
      · decide +kernel
      · simp [isPlainChar, hhex.1 c hc]
    · cases hhex
  · exact Or.inl hcolor
  · exact Or.inr fun c hc => by simp [isPlainChar, isDimensionChar_of_mem hdim hc]
  · refine Or.inr fun c hc => ?_
    cases w with
    | nil => cases hc
    | cons d cs =>
      simp only [isWordList, Bool.and_eq_true, Bool.or_eq_true, beq_iff_eq, List.all_eq_true]
        at hwords
      rcases List.mem_cons.mp hc with rfl | hc
      · rcases hwords.1 with (h | rfl) | rfl
        · simp [isPlainChar, Char.isAlphanum, h]
        · decide +kernel
        · decide +kernel
      · simp only [isPlainChar, Bool.or_eq_true]
        rcases hwords.2 c hc with h | h
        · exact Or.inl (Or.inr h)
        · exact Or.inr h

/-- **No constant holds a call of a function with a name that ends in `r`.** -/
theorem not_infix_of_isLiteral {v : Text} (h : isLiteral v) : ¬ ['r', '('] <:+: v := by
  intro hi
  have htrim := Text.infix_trim hi fun c hc => by
    rcases List.mem_pair.mp hc with rfl | rfl <;> decide
  rcases isColorFunction_or_of_isLiteral h with hcolor | hplain
  · exact not_infix_of_isColorFunction hcolor htrim
  · exact absurd (hplain '(' (htrim.subset (by simp))) (by decide +kernel)

/-- Characters of constants. -/
def isConstantChar (c : Char) : Bool :=
  isPlainChar c || isColorArgument c || c == ')' || colorFunctions.any (·.any (sameLetter · c))

theorem exists_of_isColorFunction {v : Text} (h : isColorFunction v) : ∃ name ∈ colorFunctions,
    ∃ us args, v = us ++ (args ++ [')']) ∧ us.length = name.length ∧
      (∀ b ∈ us, ∃ x ∈ name, sameLetter x b) ∧ ∀ c ∈ args, isColorArgument c := by
  obtain ⟨name, hname, hrest⟩ := List.any_eq_true.mp h
  split at hrest
  · next cs hcs =>
    simp only [Bool.and_eq_true, beq_iff_eq, bne_iff_ne, List.all_eq_true] at hrest
    obtain ⟨us, rfl, hlength, hletters⟩ := Text.exists_of_dropPrefixFold hcs
    exact ⟨name, hname, us, cs.dropLast, by rw [List.dropLast_append_getLast? ')' hrest.1.1],
      hlength, hletters, hrest.2⟩
  · cases hrest

theorem isConstantChar_of_mem {v : Text} (h : isLiteral v) {c : Char} (hc : c ∈ Text.trim v) :
    isConstantChar c := by
  rcases isColorFunction_or_of_isLiteral h with hcolor | hplain
  · obtain ⟨name, hname, us, args, heq, -, hletters, hargs⟩ := exists_of_isColorFunction hcolor
    rw [heq, List.mem_append, List.mem_append, List.mem_singleton] at hc
    rcases hc with hc | hc | rfl
    · obtain ⟨x, hx, hsame⟩ := hletters c hc
      have : colorFunctions.any (·.any (sameLetter · c)) = true :=
        List.any_eq_true.mpr ⟨name, hname, List.any_eq_true.mpr ⟨x, hx, hsame⟩⟩
      simp [isConstantChar, this]
    · simp [isConstantChar, hargs c hc]
    · decide +kernel
  · simp [isConstantChar, hplain c hc]

theorem slash_of_isLiteral {v : Text} (h : isLiteral v) :
    (∀ c ∈ (Text.trim v).head?, c ≠ '/') ∧ ∀ c ∈ (Text.trim v).getLast?, c ≠ '/' := by
  rcases isColorFunction_or_of_isLiteral h with hcolor | hplain
  · obtain ⟨name, hname, us, args, heq, hlength, hletters, -⟩ := exists_of_isColorFunction hcolor
    have hnames : colorFunctions.all fun name =>
        name != [] && name.all (!sameLetter · '/') := by decide +kernel
    obtain ⟨hne, hsame⟩ : name ≠ [] ∧ ∀ x ∈ name, sameLetter x '/' = false := by
      simpa using List.all_eq_true.mp hnames name hname
    rw [heq]
    constructor
    · intro c hc
      cases us with
      | nil => exact absurd (List.length_eq_zero_iff.mp hlength.symm) hne
      | cons u us =>
        obtain rfl : u = c := by simpa using hc
        rintro rfl
        obtain ⟨x, hx, hslash⟩ := hletters '/' (by simp)
        exact absurd (hslash.symm.trans (hsame x hx)) (by decide)
    · intro c hc
      rw [← List.append_assoc, List.getLast?_concat] at hc
      obtain rfl : ')' = c := by simpa using hc
      decide
  · have hslash : '/' ∉ Text.trim v := fun hmem => absurd (hplain _ hmem) (by decide +kernel)
    constructor
    · rintro c hc rfl
      exact hslash (List.mem_of_mem_head? hc)
    · rintro c hc rfl
      exact hslash (List.mem_of_mem_getLast? hc)

theorem stringLiterals_eq_nil {e : Text} (h : ∀ c ∈ e, c ≠ '"' ∧ c ≠ '\'' ∧ c ≠ '\x60') :
    stringLiterals e = [] := by
  have hgo : ∀ n, stringLiterals.go n e = [] := by
    intro n
    induction e generalizing n with
    | nil => cases n <;> rfl
    | cons c cs ih =>
      cases n with
      | zero => rfl
      | succ n =>
        obtain ⟨h1, h2, h3⟩ := h c (by simp)
        rw [stringLiterals.go, if_neg (by simp [h1, h2, h3])]
        exact ih (fun d hd => h d (by simp [hd])) n
  exact hgo _

end Value

end DesignLint
