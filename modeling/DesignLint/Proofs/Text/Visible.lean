import DesignLint.Gate.Evaluate
import DesignLint.Proofs.Decimal.Layout

/-!
# Texts without control characters

Numbers, the names of categories and severities, and what the gate says about a threshold have no
control characters, so they neither end a line nor start an escape sequence.
-/

namespace DesignLint

/-- A text without control characters. -/
def Visible (s : String) : Prop := ∀ c ∈ s.toList, 32 ≤ c.toNat

namespace Visible

variable {s t : String}

theorem of_all (h : s.toList.all fun c => 32 ≤ c.toNat) : Visible s := fun c hc =>
  of_decide_eq_true (List.all_eq_true.mp h c hc)

theorem append (hs : Visible s) (ht : Visible t) : Visible (s ++ t) := by
  intro c hc
  rw [String.toList_append] at hc
  exact (List.mem_append.mp hc).elim (hs c) (ht c)

theorem not_mem (h : Visible s) {c : Char} (hc : c.toNat < 32) : c ∉ s.toList := fun hmem =>
  absurd hc (Nat.not_lt.mpr (h c hmem))

end Visible

/-! ### Numbers -/

theorem Decimal.visible_of_isNumeral {c : Char} (h : Decimal.isNumeral c) : 32 ≤ c.toNat := by
  rw [Decimal.isNumeral, Bool.or_eq_true] at h
  rcases h with h | h
  · simp only [Char.isDigit, ge_iff_le, UInt32.le_iff_toNat_le, Bool.and_eq_true,
      decide_eq_true_eq] at h
    exact Nat.le_trans (by decide) h.1
  · have hall : ∀ c ∈ "-.eNaNinf".toList, 32 ≤ c.toNat := Visible.of_all rfl
    exact hall c (List.contains_iff_mem.mp h)

theorem visible_toString (n : Nat) : Visible (toString n) := fun c hc =>
  Decimal.visible_of_isNumeral (Decimal.numerals_natToString n c hc)

theorem visible_write (l : Decimal.Layout) (x : Float) : Visible (l.write x) := fun c hc =>
  Decimal.visible_of_isNumeral (Decimal.numerals_write l x c hc)

theorem visible_fixed (places : Nat) (x : Float) : Visible (Decimal.fixed places x) := fun c hc =>
  Decimal.visible_of_isNumeral (Decimal.numerals_fixed places x c hc)

/-! ### Names -/

theorem Category.visible_name (c : Category) : Visible c.name := by
  cases c <;> exact .of_all rfl

theorem Severity.visible_name (s : Severity) : Visible s.name := by
  cases s <;> exact .of_all rfl

theorem Confidence.visible_name (k : Confidence) : Visible k.name := by
  cases k <;> exact .of_all rfl

theorem Limit.visible_describe (l : Limit) : Visible l.describe := by
  refine .append (.append ?_ (.of_all rfl)) ?_
  · cases l.category with
    | none => exact .of_all rfl
    | some c => exact c.visible_name
  · cases l.severity with
    | none => exact .of_all rfl
    | some s => exact s.visible_name

/-- **The reason of a violation has no control characters.** -/
theorem Violation.visible_reason (v : Violation) : Visible v.reason := by
  cases v with
  | score actual allowed places =>
    exact .append (.append (.append (.of_all rfl) (visible_fixed 3 actual)) (.of_all rfl))
      (visible_fixed 3 allowed)
  | limit l count places =>
    have hthreshold : Visible (threshold (σ := Float) (.limit l count places)) :=
      .append (.of_all rfl) l.visible_describe
    exact .append (.append (.append (.append (.append hthreshold (.of_all rfl))
      (visible_write _ _)) (.of_all rfl)) (visible_write _ _)) (.of_all rfl)

end DesignLint
