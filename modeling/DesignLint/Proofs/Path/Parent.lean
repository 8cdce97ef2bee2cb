import DesignLint.Proofs.Path
import Mathlib.Data.List.DropRight
import Mathlib.Tactic.SplitIfs

/-!
# Going up along a path

The parent of a path is the path without its last component (`parent?_eq_some`), whatever this
component is: the parent of `a/..` is `a`. Paths that go up from a path (`Climbs`) have the first of
its components; an absolute path goes up to the root, and any other one up to the empty path, which
is where the working directory is.
-/

namespace DesignLint.Path

/-! ### Components and parts -/

/-- The component that the first part of a path stands for, if there is any. -/
def front (absolute : Bool) (first : Text) : List Component :=
  if absolute then [.root] else if first = ['.'] then [.here] else (component? first).toList

theorem isAbsolute_of_splitOn {p : String} {first : Text} {parts : List Text}
    (h : p.toList.splitOn '/' = first :: parts) :
    isAbsolute p = (first.isEmpty && !parts.isEmpty) := by
  rw [isAbsolute]
  cases hp : p.toList with
  | nil =>
    rw [hp, List.splitOn_nil, List.cons.injEq] at h
    obtain ⟨rfl, rfl⟩ := h
    rfl
  | cons c cs =>
    obtain ⟨next, rest, hnext⟩ := List.exists_cons_of_ne_nil (List.splitOn_ne_nil '/' cs)
    rw [hp, List.splitOn_cons_eq_if_modifyHead, hnext] at h
    split_ifs at h with hc
    · obtain ⟨rfl, rfl⟩ := List.cons.inj h
      simpa using hc
    · obtain ⟨rfl, rfl⟩ := List.cons.inj h
      simpa using hc

theorem components_of_splitOn {p : String} {first : Text} {parts : List Text}
    (h : p.toList.splitOn '/' = first :: parts) :
    components p = front (isAbsolute p) first ++ parts.filterMap component? := by
  have habsolute := isAbsolute_of_splitOn h
  unfold components front
  simp only [h, List.head?_cons, beq_iff_eq, Option.some.injEq]
  split_ifs with hroot hhere
  · rw [hroot, eq_comm, Bool.and_eq_true, List.isEmpty_iff] at habsolute
    rw [habsolute.1]
    rfl
  · rw [hhere]
    rfl
  · cases hfirst : component? first <;> simp [hfirst]

theorem length_splitOn (c : Char) (cs : Text) : (cs.splitOn c).length ≤ cs.length + 1 := by
  induction cs with
  | nil => simp
  | cons d cs ih =>
    rw [List.splitOn_cons_eq_if_modifyHead]
    split_ifs <;> simp <;> omega

theorem length_components (p : String) : (components p).length ≤ p.length + 1 := by
  obtain ⟨first, parts, h⟩ := List.exists_cons_of_ne_nil (List.splitOn_ne_nil '/' p.toList)
  have hfront : (front (isAbsolute p) first).length ≤ 1 := by
    unfold front
    split_ifs
    · exact Nat.le_refl _
    · exact Nat.le_refl _
    · exact Option.length_toList_le
  have hparts := length_splitOn '/' p.toList
  rw [h, List.length_cons, String.length_toList] at hparts
  rw [components_of_splitOn h, List.length_append]
  have := List.length_filterMap_le component? parts
  omega

/-! ### The parent -/

theorem component?_eq_none_iff {part : Text} : component? part = none ↔ isVoidPart part := by
  unfold component? isVoidPart
  split <;> simp_all

theorem withoutVoid_eq (parts : List Text) : withoutVoid parts = parts.rdropWhile isVoidPart := rfl

theorem filterMap_withoutVoid (parts : List Text) :
    (withoutVoid parts).filterMap component? = parts.filterMap component? := by
  rw [withoutVoid_eq]
  induction parts using List.reverseRecOn with
  | nil => rfl
  | append_singleton parts part ih =>
    by_cases hvoid : isVoidPart part
    · rw [List.rdropWhile_concat_pos _ _ _ hvoid, ih]
      simp [component?_eq_none_iff.mpr hvoid]
    · rw [List.rdropWhile_concat_neg _ _ _ hvoid]

theorem component?_ne_root (part : Text) : component? part ≠ some .root := by
  unfold component?
  split <;> simp

theorem exists_component? {part : Text} (h : ¬ isVoidPart part) :
    ∃ c, c ≠ .root ∧ component? part = some c := by
  obtain ⟨c, hc⟩ := Option.ne_none_iff_exists'.mp (mt component?_eq_none_iff.mp h)
  exact ⟨c, fun hroot => component?_ne_root part (hroot ▸ hc), hc⟩

theorem exists_component_of_withoutVoid {parts : List Text} (h : withoutVoid parts ≠ []) :
    ∃ c, c ≠ .root ∧ parts.filterMap component? =
      (withoutVoid parts).dropLast.filterMap component? ++ [c] := by
  have hlast : ¬ isVoidPart ((withoutVoid parts).getLast h) :=
    List.rdropWhile_last_not isVoidPart parts h
  obtain ⟨c, hroot, hc⟩ := exists_component? hlast
  refine ⟨c, hroot, ?_⟩
  rw [← filterMap_withoutVoid]
  conv_lhs => rw [← List.dropLast_append_getLast h, List.filterMap_append]
  simp [hc]

theorem mem_of_mem_withoutVoid {part : Text} {parts : List Text} (h : part ∈ withoutVoid parts) :
    part ∈ parts :=
  (List.rdropWhile_prefix _ _).subset h

variable {p q : String}

theorem splitOn_ofParts {parts : List Text} (hslash : ∀ part ∈ parts, '/' ∉ part)
    (hne : parts ≠ []) : (ofParts parts).toList.splitOn '/' = parts := by
  rw [ofParts, String.toList_ofList]
  exact List.splitOn_intercalate '/' hslash hne

theorem exists_front {first : Text} (h : first ≠ []) :
    ∃ c, c ≠ .root ∧ front false first = [c] := by
  unfold front
  rw [if_neg Bool.false_ne_true]
  split_ifs with hhere
  · exact ⟨.here, by simp, rfl⟩
  · have hvoid : ¬ isVoidPart first := by simp [isVoidPart, h, hhere]
    obtain ⟨c, hroot, hc⟩ := exists_component? hvoid
    exact ⟨c, hroot, by rw [hc, Option.toList_some]⟩

section

variable {first : Text} {parts : List Text}

/-- A path whose first part is the last one with a component goes up to the empty path, unless that
part is empty too. -/
theorem parent?_of_void (hp : p.toList.splitOn '/' = first :: parts) (h : withoutVoid parts = []) :
    parent? p = if first = [] then none else some "" := by
  simp only [parent?, hp, h, beq_iff_eq]

/-- A path with one part behind the first one goes up to that one, or to the root. -/
theorem parent?_of_last (hp : p.toList.splitOn '/' = first :: parts) (h : withoutVoid parts ≠ [])
    (habove : withoutVoid (withoutVoid parts).dropLast = []) :
    parent? p = some (if first = [] then "/" else String.ofList first) := by
  obtain ⟨part, rest, hrest⟩ := List.exists_cons_of_ne_nil h
  rw [hrest] at habove
  simp only [parent?, hp, hrest, habove, beq_iff_eq]

theorem parent?_of_parts (hp : p.toList.splitOn '/' = first :: parts) (h : withoutVoid parts ≠ [])
    (habove : withoutVoid (withoutVoid parts).dropLast ≠ []) :
    parent? p = some (ofParts (first :: withoutVoid (withoutVoid parts).dropLast)) := by
  obtain ⟨part, rest, hrest⟩ := List.exists_cons_of_ne_nil h
  obtain ⟨next, above, hcons⟩ := List.exists_cons_of_ne_nil habove
  rw [hrest] at hcons ⊢
  simp only [parent?, hp, hrest, hcons]

/-- The parts of the parent are the first one and those that are left over, or an empty one behind
the slash of the root. -/
theorem splitOn_parent? (hp : p.toList.splitOn '/' = first :: parts) (h : withoutVoid parts ≠ []) :
    ∃ q above, parent? p = some q ∧ q.toList.splitOn '/' = first :: above ∧
      (first = [] → above ≠ []) ∧
      above.filterMap component? = (withoutVoid parts).dropLast.filterMap component? := by
  have hslash : ∀ part ∈ first :: withoutVoid (withoutVoid parts).dropLast, '/' ∉ part := by
    intro part hpart
    suffices hmem : part ∈ p.toList.splitOn '/' from not_mem_of_mem_splitOn hmem
    rw [hp]
    rcases List.mem_cons.mp hpart with rfl | hpart
    · exact List.mem_cons_self
    · exact List.mem_cons_of_mem _ (mem_of_mem_withoutVoid
        ((List.dropLast_subset _) (mem_of_mem_withoutVoid hpart)))
  have hparts := splitOn_ofParts hslash (List.cons_ne_nil _ _)
  have hfilter := filterMap_withoutVoid (withoutVoid parts).dropLast
  by_cases habove : withoutVoid (withoutVoid parts).dropLast = []
  · have hparent := parent?_of_last hp h habove
    rw [habove] at hparts hfilter
    by_cases hfirst : first = []
    · rw [if_pos hfirst] at hparent
      exact ⟨"/", [[]], hparent, by rw [hfirst]; rfl, by simp, by rw [← hfilter]; rfl⟩
    · rw [if_neg hfirst] at hparent
      have hone : ofParts [first] = String.ofList first := by simp [ofParts]
      rw [hone] at hparts
      exact ⟨_, [], hparent, hparts, fun hnil => absurd hnil hfirst, hfilter⟩
  · exact ⟨_, _, parent?_of_parts hp h habove, hparts, fun _ => habove, hfilter⟩

end

/-- **The parent of a path starts like the path, and lacks its last component.** -/
theorem parent?_eq_some (h : parent? p = some q) :
    isAbsolute q = isAbsolute p ∧ ∃ c, c ≠ .root ∧ components p = components q ++ [c] := by
  obtain ⟨first, parts, hp⟩ := List.exists_cons_of_ne_nil (List.splitOn_ne_nil '/' p.toList)
  have habsolute := isAbsolute_of_splitOn hp
  rw [components_of_splitOn hp]
  by_cases hrest : withoutVoid parts = []
  · rw [parent?_of_void hp hrest] at h
    split_ifs at h with hfirst
    obtain rfl := Option.some.inj h
    have hfalse : isAbsolute p = false := by simp [habsolute, hfirst]
    obtain ⟨c, hroot, hc⟩ := exists_front hfirst
    refine ⟨hfalse.symm, c, hroot, ?_⟩
    rw [hfalse, hc, ← filterMap_withoutVoid, hrest]
    rfl
  · obtain ⟨c, hroot, hc⟩ := exists_component_of_withoutVoid hrest
    obtain ⟨q', above, hq', hparts, hne, habove⟩ := splitOn_parent? hp hrest
    obtain rfl := Option.some.inj (h.symm.trans hq')
    have hnil : parts ≠ [] := by
      rintro rfl
      exact hrest rfl
    have heq : isAbsolute q = isAbsolute p := by
      rw [isAbsolute_of_splitOn hparts, habsolute]
      cases first with
      | nil =>
        rw [List.isEmpty_eq_false_iff.mpr hnil, List.isEmpty_eq_false_iff.mpr (hne rfl)]
      | cons => rfl
    refine ⟨heq, c, hroot, ?_⟩
    rw [components_of_splitOn hparts, heq, habove, hc, List.append_assoc]

/-- Only the root and paths without components have no parent. -/
theorem parent?_eq_none (h : parent? p = none) :
    components p = if isAbsolute p then [.root] else [] := by
  obtain ⟨first, parts, hp⟩ := List.exists_cons_of_ne_nil (List.splitOn_ne_nil '/' p.toList)
  by_cases hrest : withoutVoid parts = []
  · rw [parent?_of_void hp hrest] at h
    split_ifs at h with hfirst
    rw [components_of_splitOn hp, ← filterMap_withoutVoid, hrest, hfirst]
    cases isAbsolute p <;> rfl
  · obtain ⟨q, -, hq, -⟩ := splitOn_parent? hp hrest
    rw [hq] at h
    cases h

/-! ### Going up -/

/-- One path is another, or follows from it by going up. -/
inductive Climbs : String → String → Prop
  | here (p : String) : Climbs p p
  | up {p q r : String} : parent? p = some q → Climbs q r → Climbs p r

namespace Climbs

variable {r : String}

theorem eq_of_parent?_eq_none (h : Climbs p q) (hparent : parent? p = none) : q = p := by
  cases h with
  | here => rfl
  | up hup _ => cases hparent.symm.trans hup

theorem eq_or_climbs (h : Climbs p r) (hparent : parent? p = some q) : r = p ∨ Climbs q r := by
  cases h with
  | here => exact Or.inl rfl
  | up hup hclimbs =>
    obtain rfl := Option.some.inj (hparent.symm.trans hup)
    exact Or.inr hclimbs

theorem prefix_components (h : Climbs p q) : components q <+: components p := by
  induction h with
  | here => exact List.prefix_rfl
  | up hparent _ ih =>
    obtain ⟨-, c, -, hc⟩ := parent?_eq_some hparent
    rw [hc]
    exact ih.trans (List.prefix_append _ _)

/-- Every path goes up to the root or to a path without components. -/
theorem exists_top (p : String) :
    ∃ q, Climbs p q ∧ components q = if isAbsolute p then [.root] else [] := by
  induction hn : (components p).length using Nat.strong_induction_on generalizing p with
  | _ n ih =>
    cases hparent : parent? p with
    | none => exact ⟨p, .here p, parent?_eq_none hparent⟩
    | some q =>
      obtain ⟨habsolute, c, -, hc⟩ := parent?_eq_some hparent
      have hlt : (components q).length < n := by
        rw [← hn, hc]
        simp
      obtain ⟨r, hr, htop⟩ := ih _ hlt q rfl
      exact ⟨r, .up hparent hr, habsolute ▸ htop⟩

end Climbs

end DesignLint.Path
