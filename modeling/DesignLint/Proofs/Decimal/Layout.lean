import DesignLint.Decimal.Layout
import Mathlib.Data.List.Basic
import Mathlib.Tactic.SplitIfs

/-!
# Characters of numbers

A number is written with digits, a sign, a point and an exponent, or as one of two words, whatever
its layout (`numerals_write`, `numerals_fixed`).
-/

namespace DesignLint.Decimal

/-- Characters that a number may be written with. -/
def isNumeral (c : Char) : Bool := c.isDigit || "-.eNaNinf".toList.contains c

theorem isNumeral_of_isDigit {c : Char} (h : c.isDigit) : isNumeral c := by
  rw [isNumeral, h, Bool.true_or]

/-- Texts that consist of such characters. -/
def Numerals (cs : List Char) : Prop := ∀ c ∈ cs, isNumeral c

section

variable {as bs : List Char}

theorem Numerals.append (ha : Numerals as) (hb : Numerals bs) : Numerals (as ++ bs) :=
  List.forall_mem_append.mpr ⟨ha, hb⟩

theorem Numerals.cons {c : Char} (hc : isNumeral c) (ha : Numerals as) : Numerals (c :: as) :=
  List.forall_mem_cons.mpr ⟨hc, ha⟩

theorem Numerals.mono (h : as ⊆ bs) (hb : Numerals bs) : Numerals as := fun c hc => hb c (h hc)

theorem numerals_of_all (h : as.all isNumeral) : Numerals as := List.all_eq_true.mp h

theorem numerals_toDigits (n : Nat) : Numerals (Nat.toDigits 10 n) := fun _ hc =>
  isNumeral_of_isDigit (Nat.isDigit_of_mem_toDigits (by decide) (by decide) hc)

theorem numerals_zeros (n : Nat) : Numerals (List.replicate n '0') := by
  intro c hc
  obtain rfl := List.eq_of_mem_replicate hc
  rfl

theorem numerals_sign (x : Float) : Numerals (if isNegative x then ['-'] else []) := by
  split
  · exact numerals_of_all rfl
  · exact numerals_of_all rfl

theorem numerals_natToString (n : Nat) : Numerals (toString n).toList := by
  rw [Nat.toString_eq_repr, Nat.toList_repr]
  exact numerals_toDigits n

theorem numerals_toString (n : Int) : Numerals (toString n).toList := by
  cases n with
  | ofNat n => exact numerals_natToString n
  | negSucc n =>
    have heq : (toString (Int.negSucc n)).toList = '-' :: (toString (n + 1)).toList := by
      simp [toString, Int.repr]
    rw [heq]
    exact .cons rfl (numerals_natToString _)

theorem numerals_shortest (b : Binary) : Numerals b.shortest.digits := by
  unfold Binary.shortest
  simp only
  split
  · next d k _ =>
    refine .mono (fun c hc => ?_) (numerals_toDigits d)
    rw [Binary.trimZeros, List.mem_reverse] at hc
    exact List.mem_reverse.mp ((List.dropWhile_sublist _).subset hc)
  · exact numerals_of_all rfl

/-! ### Layouts -/

variable {d : Digits}

theorem numerals_positional (hd : Numerals d.digits) (keepFraction : Bool) :
    Numerals (d.positional keepFraction) := by
  unfold Digits.positional
  simp only
  split_ifs
  · exact numerals_of_all rfl
  · exact numerals_of_all rfl
  · exact .append (.cons rfl (.cons rfl (numerals_zeros _))) hd
  · exact .append (.append hd (numerals_zeros _)) (numerals_of_all rfl)
  · exact .append (.append hd (numerals_zeros _)) (numerals_of_all rfl)
  · exact .append (.mono (List.take_subset _ _) hd)
      (.cons rfl (.mono (List.drop_subset _ _) hd))

theorem numerals_scientific (hd : Numerals d.digits) : Numerals d.scientific := by
  unfold Digits.scientific
  split
  · exact numerals_of_all rfl
  · next c hc =>
    rw [hc] at hd
    exact .cons (hd c (by simp)) (.cons rfl (numerals_toString _))
  · next c cs _ hc =>
    rw [hc] at hd
    exact .append (.cons (hd c (by simp)) (.cons rfl fun a ha => hd a (by simp [ha])))
      (.cons rfl (numerals_toString _))

/-- **A number is written with digits, a sign, a point and an exponent, or in letters.** -/
theorem numerals_write (l : Layout) (x : Float) : Numerals (l.write x).toList := by
  have hsign := numerals_sign x
  unfold Layout.write
  simp only
  generalize (if isNegative x then ['-'] else []) = sign at hsign ⊢
  split
  · exact numerals_of_all rfl
  · cases Binary.ofFloat? x with
    | none => exact String.toList_ofList ▸ hsign.append (numerals_of_all rfl)
    | some b =>
      have hd : Numerals (if b.m == 0 then ⟨[], 0⟩ else b.shortest : Digits).digits := by
        split
        · exact numerals_of_all rfl
        · exact numerals_shortest b
      simp only [String.toList_ofList]
      generalize (if b.m == 0 then ⟨[], 0⟩ else b.shortest : Digits) = d at hd ⊢
      have hlayout : ∀ plain : Bool,
          Numerals (if plain then d.positional l.keepFraction else d.scientific) := by
        intro plain
        split
        · exact numerals_positional hd _
        · exact numerals_scientific hd
      exact hsign.append (hlayout _)

theorem numerals_fixed (places : Nat) (x : Float) : Numerals (fixed places x).toList := by
  have hsign := numerals_sign x
  unfold fixed
  simp only
  generalize (if isNegative x then ['-'] else []) = sign at hsign ⊢
  split
  · exact numerals_of_all rfl
  · cases Binary.ofFloat? x with
    | none => exact String.toList_ofList ▸ hsign.append (numerals_of_all rfl)
    | some b =>
      have hd := (numerals_zeros (places + 1 - (Nat.toDigits 10 (b.rounded places)).length)).append
        (numerals_toDigits (b.rounded places))
      simp only [String.toList_ofList]
      refine .append (.append hsign (.mono (List.take_subset _ _) hd)) ?_
      split
      · exact numerals_of_all rfl
      · exact .cons rfl (.mono (List.drop_subset _ _) hd)

end

end DesignLint.Decimal
