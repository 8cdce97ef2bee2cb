import DesignLint.Proofs.Style.Site
import DesignLint.Style.UtilityClass
import Mathlib.Data.List.TakeWhile
import Mathlib.Data.Option.Basic

/-!
# Where values of utility classes are

A class that is found lies ahead of the point where it is looked for, its value between brackets
(`UtilityClass.Ahead`). So the value is on the text and framed in it (`on_of_mem_classSites`).
-/

namespace DesignLint.Style

/-- A class ahead of a point: its value stands between brackets. -/
structure UtilityClass.Ahead (k : Cursor) (u : UtilityClass) : Prop where
  before : ∃ us, k.Passes (us ++ ['[']) u.start
  value : ∃ vs, u.start.Passes vs u.stop ∧ vs ≠ [] ∧ ∀ c ∈ vs, c ≠ ']' ∧ ¬ isBlank c
  after : u.stop.rest.head? = some ']'

theorem UtilityClass.Ahead.passes {k l : Cursor} {u : UtilityClass} {us : Text} (h : u.Ahead l)
    (hp : k.Passes us l) : u.Ahead k := by
  obtain ⟨⟨vs, hvs⟩, hv, ha⟩ := h
  exact ⟨⟨us ++ vs, by rw [List.append_assoc]; exact hp.trans hvs⟩, hv, ha⟩

theorem ahead_of_classOf? {stem : Text} {k : Cursor} {u : UtilityClass}
    (h : classOf? stem k = some u) : u.Ahead k := by
  unfold classOf? at h
  simp only [Option.bind_eq_bind, Option.bind_eq_some_iff, Option.pure_def, Option.some.injEq] at h
  obtain ⟨start, hstart, x, hguard, rfl⟩ := h
  unfold guard at hguard
  split_ifs at hguard with hv
  rw [Bool.and_eq_true, bne_iff_ne, beq_iff_eq] at hv
  have hp := Cursor.skip_passes (start.rest.takeWhile fun c => c != ']' && !isBlank c).length start
  have htake : start.rest.take (start.rest.takeWhile fun c => c != ']' && !isBlank c).length =
      start.rest.takeWhile fun c => c != ']' && !isBlank c :=
    (List.prefix_iff_eq_take.mp (List.takeWhile_prefix _)).symm
  rw [htake] at hp
  refine ⟨⟨stem ++ ['-'], ?_⟩, ⟨_, hp, hv.1, fun c hc => ?_⟩, hv.2⟩
  · simpa using Cursor.skipText_passes hstart
  · simpa using List.mem_takeWhile_imp hc

theorem ahead_of_classFrom? {stems : List Text} {before : Option Char} {k : Cursor}
    {u : UtilityClass} (h : classFrom? stems before k = some u) : u.Ahead k := by
  have hat : ∀ {l : Cursor}, classAt? stems l = some u → u.Ahead l := by
    intro l hl
    obtain ⟨stem, -, hs⟩ := List.exists_of_findSome?_eq_some hl
    exact ahead_of_classOf? hs
  unfold classFrom? at h
  simp only at h
  split at h
  · next hu =>
    cases h
    split_ifs at hu
    exact hat hu
  · split_ifs at h
    exact (hat h).passes (Cursor.skip_passes 1 k)

theorem ahead_of_mem_classes {stems : List Text} {busy o : Nat} {before : Option Char} {cs : Text}
    {u : UtilityClass} (h : u ∈ classes stems busy before o cs) : u.Ahead ⟨o, cs⟩ := by
  induction cs generalizing busy before o with
  | nil => simp [classes] at h
  | cons c cs ih =>
    have hrest : ∀ {busy}, u ∈ classes stems busy (some c) (o + c.utf8Size) cs →
        u.Ahead ⟨o, c :: cs⟩ := fun hmem => (ih hmem).passes (Cursor.passes_one o c cs)
    cases busy with
    | succ busy => exact hrest h
    | zero =>
      simp only [classes] at h
      split at h
      · next hu =>
        rcases List.mem_cons.mp h with rfl | h
        · exact ahead_of_classFrom? hu
        · exact hrest h
      · exact hrest h

/-- Whether a character can stand between the brackets of a class. -/
def isClassChar (c : Char) : Bool := c != ']' && !isBlank c

theorem context_of_mem_classSites {stems : List Text} {cs : Text} {v : ValueSite}
    (h : v ∈ classSites stems cs) : v.context = .className := by
  obtain ⟨u, -, rfl⟩ := List.mem_map.mp h
  rfl

theorem exists_of_mem_classSites {stems : List Text} {cs : Text} {v : ValueSite}
    (h : v ∈ classSites stems cs) : ∃ as us bs, cs = as ++ (us ++ ']' :: bs) ∧ us ≠ [] ∧
      (∀ c ∈ us, isClassChar c) ∧ v.span = ⟨Text.size as, Text.size as + Text.size us⟩ := by
  obtain ⟨u, hu, rfl⟩ := List.mem_map.mp h
  obtain ⟨⟨us, hus⟩, ⟨vs, hvs, hne, hchars⟩, hafter⟩ := ahead_of_mem_classes hu
  obtain ⟨ds, hds⟩ := List.head?_eq_some_iff.mp hafter
  obtain ⟨hcs, ho⟩ := hus
  refine ⟨us ++ ['['], vs, ds, ?_, hne, fun c hc => by simpa [isClassChar] using hchars c hc, ?_⟩
  · rw [← hds, ← hvs.1, ← hcs]
  · simp only [Nat.zero_add] at ho
    rw [UtilityClass.site, hvs.2, ho]

theorem lt_of_mem_classSites {stems : List Text} {cs : Text} {v : ValueSite}
    (h : v ∈ classSites stems cs) : v.span.start < v.span.stop := by
  obtain ⟨as, us, bs, -, hne, -, hspan⟩ := exists_of_mem_classSites h
  rw [hspan]
  exact Nat.lt_add_of_pos_right (Text.size_pos hne)

/-- **Values of utility classes are on the text, and framed in it.** -/
theorem on_of_mem_classSites {stems : List Text} {cs : Text} {v : ValueSite}
    (h : v ∈ classSites stems cs) : v.On cs ∧ v.Framed cs := by
  obtain ⟨u, hu, rfl⟩ := List.mem_map.mp h
  obtain ⟨⟨us, hus⟩, ⟨vs, hvs, -, -⟩, hafter⟩ := ahead_of_mem_classes hu
  have hstart : u.start.In cs := ⟨_, hus⟩
  have hstop := hstart.passes hvs
  have hcs : cs = us ++ ['['] ++ u.start.rest := hus.1
  have hsize : u.start.offset = Text.size (us ++ ['[']) := by rw [hus.2]; simp
  obtain ⟨before, hb, ho⟩ := Cursor.in_iff.mp hstop
  have hleft : Text.LeftEdge (us ++ ['['] ++ u.start.rest) (Text.size (us ++ ['['])) := by
    refine .of_getLast? (fun c hc => ?_) _
    obtain rfl : '[' = c := by simpa using hc
    rfl
  have hright : Text.RightEdge .className (before ++ u.stop.rest) (Text.size before) := by
    refine .of_head? _ fun c hc => ?_
    obtain rfl : ']' = c := by simpa [hafter] using hc
    rfl
  refine ⟨⟨hstart.on hvs, ?_⟩, ?_, ?_⟩
  · simp only [UtilityClass.site, ValueContext.read, hstart.slice_eq hvs, hvs.upTo_eq]
  · rwa [← hcs, ← hsize] at hleft
  · rwa [← hb, ← ho] at hright

end DesignLint.Style
