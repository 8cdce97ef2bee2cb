import DesignLint.Fix.Plan
import DesignLint.Proofs.Text.Blank
import DesignLint.Proofs.Text.Class
import Mathlib

/-!
# Spellings of a value

A text is respelled by a letter in another case, or by blanks where they say nothing: at its ends,
next to other blanks, in front of brackets, commas and slashes, and behind all of them but closing
brackets (`Respelled`). `normalize` reads a text with two pieces of state, so it is enough to know
what a respelling does from every state (`squeeze_congr`). The other way round, the steps of
`squeeze` are respellings (`spelling_squeeze`). So the normal form of a text is one of its
spellings, and two texts have the same one exactly if they are spellings of each other
(`normalize_canonical`).
-/

namespace DesignLint.Value

open Relation

/-- One change of a text that leaves the value as it is. -/
inductive Respelled : Text → Text → Prop
  /-- A letter in another case. -/
  | letter (xs ys : Text) {c d : Char} (h : d = c.toLower ∨ d = c.toUpper) :
    Respelled (xs ++ c :: ys) (xs ++ d :: ys)
  | front (ys : Text) {ws : Text} (h : ∀ c ∈ ws, isBlank c) : Respelled ys (ws ++ ys)
  | back (xs : Text) {ws : Text} (h : ∀ c ∈ ws, isBlank c) : Respelled xs (xs ++ ws)
  /-- Blanks for blanks. -/
  | run (xs ys : Text) {vs ws : Text} (hv : ∀ c ∈ vs, isBlank c) (hw : ∀ c ∈ ws, isBlank c)
    (hne : vs ≠ [] ∧ ws ≠ []) : Respelled (xs ++ (vs ++ ys)) (xs ++ (ws ++ ys))
  | before (xs ys : Text) {c : Char} {ws : Text} (hc : c ∈ ['(', ')', ',', '/'])
    (h : ∀ c ∈ ws, isBlank c) : Respelled (xs ++ c :: ys) (xs ++ (ws ++ c :: ys))
  | after (xs ys : Text) {c : Char} {ws : Text} (hc : c ∈ ['(', ',', '/'])
    (h : ∀ c ∈ ws, isBlank c) : Respelled (xs ++ c :: ys) (xs ++ c :: (ws ++ ys))

/-- Two texts are spellings of one value if some changes, or their undoing, lead from one to the
other. -/
def Spelling : Text → Text → Prop := EqvGen Respelled

theorem Respelled.spelling {v w : Text} (h : Respelled v w) : Spelling v w := .rel v w h

theorem Spelling.refl (v : Text) : Spelling v v := EqvGen.refl v

theorem Spelling.symm {v w : Text} (h : Spelling v w) : Spelling w v := EqvGen.symm v w h

theorem Spelling.trans {u v w : Text} (h : Spelling u v) (h' : Spelling v w) : Spelling u w :=
  EqvGen.trans u v w h h'

/-! ### Squeezing -/

section

variable {last : Option Char} {gap : Bool} {c : Char} {ws ys zs : Text}

theorem hugsLeft_iff : hugsLeft c ↔ c ∈ ['(', ')', ',', '/'] := by
  simp [hugsLeft, or_assoc]

theorem hugsRight_iff : hugsRight c ↔ c ∈ ['(', ',', '/'] := by
  simp [hugsRight, or_assoc]

theorem not_isBlank_of_hugsLeft (h : hugsLeft c) : isBlank c = false := by
  have hall : ∀ c ∈ ['(', ')', ',', '/'], isBlank c = false :=
    List.all_iff_forall_prop.mp (by decide +kernel)
  exact hall c (hugsLeft_iff.mp h)

theorem hugsLeft_of_hugsRight (h : hugsRight c) : hugsLeft c := by
  rw [hugsRight_iff] at h
  exact hugsLeft_iff.mpr (List.Sublist.subset (by simp) h)

theorem toLower_of_hugsLeft (h : hugsLeft c) : c.toLower = c := by
  have hall : ∀ c ∈ ['(', ')', ',', '/'], c.toLower = c :=
    List.all_iff_forall_prop.mp (by decide +kernel)
  exact hall c (hugsLeft_iff.mp h)

theorem squeeze_blank (h : isBlank c) : squeeze last gap (c :: ys) = squeeze last true ys := by
  rw [squeeze, if_pos h]

theorem squeeze_cons (hc : isBlank c = false)
    (h : (gap && !hugsLeft c && last.any (!hugsRight ·)) = false) :
    squeeze last gap (c :: ys) = c :: squeeze (some c) false ys := by
  rw [squeeze, if_neg (by simp [hc]), if_neg (by simp [h])]

theorem squeeze_space (hc : isBlank c = false)
    (h : (gap && !hugsLeft c && last.any (!hugsRight ·)) = true) :
    squeeze last gap (c :: ys) = ' ' :: c :: squeeze (some c) false ys := by
  rw [squeeze, if_neg (by simp [hc]), if_pos h]

theorem squeeze_blanks (h : ∀ c ∈ ws, isBlank c) :
    squeeze last gap (ws ++ ys) = squeeze last (gap || !ws.isEmpty) ys := by
  induction ws generalizing gap with
  | nil => simp
  | cons c ws ih =>
    rw [List.cons_append, squeeze_blank (h c (by simp)), ih fun d hd => h d (by simp [hd])]
    simp

theorem squeeze_gap (h : last.any (!hugsRight ·) = false) :
    squeeze last gap ys = squeeze last false ys := by
  induction ys generalizing gap with
  | nil => rfl
  | cons c cs ih =>
    cases hc : isBlank c with
    | true => rw [squeeze_blank hc, squeeze_blank hc]
    | false => rw [squeeze_cons hc (by simp [h]), squeeze_cons hc (by simp)]

/-- What is the same from every state is the same behind any text. -/
theorem squeeze_congr (h : ∀ last gap, squeeze last gap ys = squeeze last gap zs) (xs : Text)
    (last : Option Char) (gap : Bool) : squeeze last gap (xs ++ ys) = squeeze last gap (xs ++ zs) := by
  induction xs generalizing last gap with
  | nil => exact h last gap
  | cons c xs ih => simp only [List.cons_append, squeeze, ih]

/-- **Squeezing leaves nothing to be squeezed.** -/
theorem squeeze_squeeze (last : Option Char) (gap : Bool) (cs : Text) :
    squeeze last false (squeeze last gap cs) = squeeze last gap cs := by
  induction cs generalizing last gap with
  | nil => rfl
  | cons c cs ih =>
    cases hc : isBlank c with
    | true => rw [squeeze_blank hc, ih]
    | false =>
      cases hkeep : gap && !hugsLeft c && last.any (!hugsRight ·) with
      | false => rw [squeeze_cons hc hkeep, squeeze_cons hc (by simp), ih]
      | true =>
        -- the space that was written is read as a gap, and kept for the same reason
        have hagain : (true && !hugsLeft c && last.any (!hugsRight ·)) = true := by
          rw [Bool.and_eq_true, Bool.and_eq_true] at hkeep
          rw [Bool.true_and, hkeep.1.2, hkeep.2, Bool.and_self]
        rw [squeeze_space hc hkeep, squeeze_blank rfl, squeeze_space hc hagain, ih]

theorem mem_squeeze {cs : Text} {d : Char} (h : d ∈ squeeze last gap cs) : d ∈ cs ∨ d = ' ' := by
  fun_induction squeeze last gap cs with
  | case1 => cases h
  | case2 last gap c cs hc ih => exact (ih h).imp_left (List.mem_cons_of_mem _)
  | case3 last gap c cs hc hkeep ih => grind
  | case4 last gap c cs hc hkeep ih => grind

end

/-! ### Respelling keeps the normal form -/

theorem lower_cons (c : Char) (cs : Text) : Text.lower (c :: cs) = c.toLower :: Text.lower cs :=
  rfl

theorem lower_append (xs ys : Text) : Text.lower (xs ++ ys) = Text.lower xs ++ Text.lower ys :=
  List.map_append

theorem lower_blanks {ws : Text} (h : ∀ c ∈ ws, isBlank c) : Text.lower ws = ws :=
  (List.map_congr_left fun c hc => toLower_eq_self_of_isBlank (h c hc)).trans (List.map_id ws)

theorem normalize_append_congr {ys zs : Text} (xs : Text)
    (h : ∀ last gap, squeeze last gap (Text.lower ys) = squeeze last gap (Text.lower zs)) :
    normalize (xs ++ ys) = normalize (xs ++ zs) := by
  rw [normalize, normalize, lower_append, lower_append]
  exact squeeze_congr h _ _ _

/-- **A change that leaves the value as it is leaves the normal form as it is.** -/
theorem Respelled.normalize_eq {v w : Text} (h : Respelled v w) : normalize v = normalize w := by
  cases h with
  | letter xs ys hd =>
    refine normalize_append_congr xs fun last gap => ?_
    rcases hd with rfl | rfl <;> simp [Text.lower]
  | front _ hw =>
    rw [normalize, normalize, lower_append, lower_blanks hw, squeeze_blanks hw]
    exact (squeeze_gap rfl).symm
  | @back _ ws hw =>
    have hend : normalize (v ++ []) = normalize (v ++ ws) := by
      refine normalize_append_congr v fun last gap => ?_
      rw [lower_blanks hw, ← List.append_nil ws, squeeze_blanks hw]
      rfl
    rwa [List.append_nil] at hend
  | run xs ys hv hw hne =>
    refine normalize_append_congr xs fun last gap => ?_
    rw [lower_append, lower_append, lower_blanks hv, lower_blanks hw, squeeze_blanks hv,
      squeeze_blanks hw, List.isEmpty_eq_false_iff.mpr hne.1, List.isEmpty_eq_false_iff.mpr hne.2]
  | @before xs ys c ws hc hw =>
    refine normalize_append_congr xs fun last gap => ?_
    have hhugs := hugsLeft_iff.mpr hc
    have hblank := not_isBlank_of_hugsLeft hhugs
    rw [lower_append, lower_blanks hw, squeeze_blanks hw, lower_cons, toLower_of_hugsLeft hhugs,
      squeeze_cons hblank (by simp [hhugs]), squeeze_cons hblank (by simp [hhugs])]
  | @after xs ys c ws hc hw =>
    refine normalize_append_congr xs fun last gap => ?_
    have hhugs := hugsLeft_of_hugsRight (hugsRight_iff.mpr hc)
    have hblank := not_isBlank_of_hugsLeft hhugs
    rw [lower_cons, lower_cons, toLower_of_hugsLeft hhugs, squeeze_cons hblank (by simp [hhugs]),
      squeeze_cons hblank (by simp [hhugs]), lower_append, lower_blanks hw, squeeze_blanks hw]
    exact congrArg _ (squeeze_gap (by simp [hugsRight_iff.mpr hc])).symm

theorem Spelling.normalize_eq {v w : Text} (h : Spelling v w) : normalize v = normalize w := by
  induction h with
  | rel _ _ h => exact h.normalize_eq
  | refl _ => rfl
  | symm _ _ _ ih => exact ih.symm
  | trans _ _ _ _ _ ih₁ ih₂ => exact ih₁.trans ih₂

/-! ### Every text is a spelling of its normal form -/

theorem spelling_lower (xs ys : Text) : Spelling (xs ++ ys) (xs ++ Text.lower ys) := by
  induction ys generalizing xs with
  | nil => exact .refl _
  | cons c ys ih =>
    have hrest := ih (xs ++ [c.toLower])
    rw [List.append_assoc, List.append_assoc] at hrest
    exact (Respelled.letter xs ys (Or.inl rfl)).spelling.trans hrest

/-- The blank that has been read and not yet been written. -/
def pending (gap : Bool) : Text := if gap then [' '] else []

theorem isBlank_of_mem_pending {gap : Bool} {c : Char} (h : c ∈ pending gap) : isBlank c := by
  cases gap with
  | false => cases h
  | true =>
    obtain rfl := List.mem_singleton.mp h
    exact isBlank_space

/-- A blank that is not kept says nothing. -/
theorem spelling_unkept {xs : Text} {gap : Bool} {c : Char}
    (h : (gap && !hugsLeft c && xs.getLast?.any (!hugsRight ·)) = false) (cs : Text) :
    Spelling (xs ++ (pending gap ++ c :: cs)) (xs ++ c :: cs) := by
  have hblank : ∀ d ∈ pending gap, isBlank d := fun d => isBlank_of_mem_pending
  cases gap with
  | false => exact .refl _
  | true =>
    cases hleft : hugsLeft c with
    | true => exact (Respelled.before xs cs (hugsLeft_iff.mp hleft) hblank).spelling.symm
    | false =>
      rcases List.eq_nil_or_concat xs with rfl | ⟨xs, d, rfl⟩
      · exact (Respelled.front (c :: cs) hblank).spelling.symm
      · have hright : hugsRight d := by simpa [hleft] using h
        have hafter := Respelled.after xs (c :: cs) (hugsRight_iff.mp hright) hblank
        rw [List.concat_eq_append, List.append_assoc, List.append_assoc]
        exact hafter.spelling.symm

/-- **What squeezing writes behind a text is a spelling of what it reads.** -/
theorem spelling_squeeze (xs cs : Text) (gap : Bool) :
    Spelling (xs ++ (pending gap ++ cs)) (xs ++ squeeze xs.getLast? gap cs) := by
  -- the text in front is what has been written, so its last character is the state
  induction cs generalizing xs gap with
  | nil =>
    rw [squeeze, List.append_nil, List.append_nil]
    exact (Respelled.back xs fun d => isBlank_of_mem_pending).spelling.symm
  | cons c cs ih =>
    cases hc : isBlank c with
    | true =>
      have hblanks : ∀ d ∈ pending gap ++ [c], isBlank d := by
        intro d hd
        rcases List.mem_append.mp hd with hd | hd
        · exact isBlank_of_mem_pending hd
        · rwa [List.mem_singleton.mp hd]
      have hrun : Respelled (xs ++ (pending gap ++ [c] ++ cs)) (xs ++ (pending true ++ cs)) :=
        .run xs cs hblanks (fun d => isBlank_of_mem_pending) (by simp [pending])
      rw [List.append_assoc, List.singleton_append] at hrun
      rw [squeeze_blank hc]
      exact hrun.spelling.trans (ih xs true)
    | false =>
      cases hkeep : gap && !hugsLeft c && xs.getLast?.any (!hugsRight ·) with
      | true =>
        obtain rfl : gap = true := by
          rw [Bool.and_eq_true, Bool.and_eq_true] at hkeep
          exact hkeep.1.1
        have hrest := ih (xs ++ [' ', c]) false
        rw [squeeze_space hc hkeep]
        simpa [pending] using hrest
      | false =>
        have hrest := ih (xs ++ [c]) false
        rw [squeeze_cons hc hkeep]
        exact (spelling_unkept hkeep cs).trans (by simpa [pending] using hrest)

theorem spelling_normalize (v : Text) : Spelling v (normalize v) :=
  (spelling_lower [] v).trans (spelling_squeeze [] (Text.lower v) false)

theorem lower_normalize (v : Text) : Text.lower (normalize v) = normalize v := by
  refine (List.map_congr_left fun c hc => ?_).trans (List.map_id _)
  rcases mem_squeeze hc with hc | rfl
  · obtain ⟨d, -, rfl⟩ := List.mem_map.mp hc
    exact Char.toLower_toLower_eq_toLower d
  · rfl

theorem normalize_normalize (v : Text) : normalize (normalize v) = normalize v := by
  conv => lhs; rw [normalize, lower_normalize]
  exact squeeze_squeeze none false (Text.lower v)

theorem spelling_iff {v w : Text} : Spelling v w ↔ normalize v = normalize w := by
  refine ⟨Spelling.normalize_eq, fun h => ?_⟩
  have hv := spelling_normalize v
  rw [h] at hv
  exact hv.trans (spelling_normalize w).symm

theorem toOption_planValue_congr {v w : Text} (h : normalize v = normalize w) (s : ValueSite)
    (fix : Autofix) : (planValue { s with value := v } fix).toOption =
      (planValue { s with value := w } fix).toOption := by
  cases fix with
  | substitute tokens =>
    simp only [planValue, h]
    cases tokens.lookup (normalize w) <;> rfl
  | none => rfl
  | rename component => rfl
  | remap component target fallback mappings => rfl

/-- **The normal form of a value is canonical.** It is its own normal form; two texts have the same
one exactly if they are spellings of one value; and then a fix that puts tokens in place of values
makes of both the same plan, or of neither one. -/
theorem normalize_canonical (v : Text) : normalize (normalize v) = normalize v ∧
    ∀ w, (Spelling v w ↔ normalize v = normalize w) ∧
      (Spelling v w → ∀ (s : ValueSite) (fix : Autofix),
        (planValue { s with value := v } fix).toOption =
          (planValue { s with value := w } fix).toOption) :=
  ⟨normalize_normalize v, fun _ =>
    ⟨spelling_iff, fun h s fix => toOption_planValue_congr h.normalize_eq s fix⟩⟩

/-- Two spellings of a list of fonts are four changes apart. -/
theorem normalize_canonical_fonts :
    let fix : Autofix := .substitute [("inter,arial".toList, "var(--font)")]
    let site (v : String) : ValueSite :=
      ⟨⟨7, 22⟩, v.toList, "font-family".toList, .declaration⟩
    Spelling " Inter,  Arial".toList "inter,arial".toList ∧
    normalize " Inter,  Arial".toList = normalize "inter,arial".toList ∧
    (planValue (site " Inter,  Arial") fix).toOption = (planValue (site "inter,arial") fix).toOption ∧
    ((planValue (site " Inter,  Arial") fix).toOption.map (·.replacement)) =
      some "var(--font)".toList := by
  intro fix site
  have hfront : Respelled "Inter,  Arial".toList " Inter,  Arial".toList :=
    @Respelled.front _ [' '] (List.all_eq_true.mp rfl)
  have hfirst : Respelled "Inter,  Arial".toList "inter,  Arial".toList :=
    .letter [] "nter,  Arial".toList (Or.inl rfl)
  have hafter : Respelled "inter,Arial".toList "inter,  Arial".toList :=
    @Respelled.after "inter".toList "Arial".toList ',' [' ', ' '] (by simp)
      (List.all_eq_true.mp rfl)
  have hsecond : Respelled "inter,Arial".toList "inter,arial".toList :=
    .letter "inter,".toList "rial".toList (Or.inl rfl)
  have h : Spelling " Inter,  Arial".toList "inter,arial".toList :=
    hfront.spelling.symm.trans
      (hfirst.spelling.trans (hafter.spelling.symm.trans hsecond.spelling))
  obtain ⟨heq, hplan⟩ := (normalize_canonical " Inter,  Arial".toList).2 "inter,arial".toList
  exact ⟨h, heq.mp h, hplan h (site "") fix, by decide +kernel⟩

end DesignLint.Value
