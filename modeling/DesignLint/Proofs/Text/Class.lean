import DesignLint.Text.Blank
import DesignLint.Text.Fold
import DesignLint.Text.Word
import Mathlib.Data.Bool.AllAny
import Mathlib.Data.List.Basic

/-!
# Classes of characters apart

There are few blanks (`mem_blankChars`), and none of them is part of a word or a letter that differs
from another one in case (`not_isWordChar_of_isBlank`, `caseFold_of_isBlank`). Of ASCII characters,
letters are the same up to case if they are so in lower case (`sameLetter_iff_of_isAscii`).
-/

namespace DesignLint

/-- All blanks. -/
def blankChars : List Char :=
  [9, 10, 11, 12, 13, 0x20, 0x85, 0xA0, 0x1680, 0x2000, 0x2001, 0x2002, 0x2003, 0x2004, 0x2005,
    0x2006, 0x2007, 0x2008, 0x2009, 0x200A, 0x2028, 0x2029, 0x202F, 0x205F, 0x3000].map Char.ofNat

theorem isBlank_space : isBlank ' ' := rfl

theorem mem_blankChars {c : Char} (h : isBlank c) : c ∈ blankChars := by
  refine List.mem_map.mpr ⟨c.toNat, ?_, Char.ofNat_toNat c⟩
  simp only [isBlank, Bool.or_eq_true, Bool.and_eq_true, decide_eq_true_eq, beq_iff_eq] at h
  simp only [List.mem_cons, List.not_mem_nil, or_false]
  omega

theorem not_isWordChar_of_isBlank {c : Char} (h : isBlank c) : isWordChar c = false := by
  have hall : ∀ c ∈ blankChars, isWordChar c = false :=
    List.all_iff_forall_prop.mp (by decide +kernel)
  exact hall c (mem_blankChars h)

theorem caseFold_of_isBlank {c : Char} (h : isBlank c) : caseFold c = c := by
  have hall : ∀ c ∈ blankChars, caseFold c = c :=
    List.all_iff_forall_prop.mp (by decide +kernel)
  exact hall c (mem_blankChars h)

theorem of_isAscii {P : Char → Prop} (h : ∀ n < 128, P (Char.ofNat n)) {c : Char}
    (hc : c.toNat < 128) : P c := by
  simpa using h c.toNat hc

theorem caseFold_of_isAscii {c : Char} (h : c.toNat < 128) : caseFold c = c.toLower :=
  of_isAscii (P := fun c => caseFold c = c.toLower) (by decide +kernel) h

theorem sameLetter_iff_of_isAscii {a c : Char} (ha : a.toNat < 128) (hc : c.toNat < 128) :
    sameLetter a c ↔ a.toLower = c.toLower := by
  rw [sameLetter, beq_iff_eq, caseFold_of_isAscii ha, caseFold_of_isAscii hc]

end DesignLint
