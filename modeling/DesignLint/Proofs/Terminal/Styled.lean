import DesignLint.Proofs.Text.Visible
import DesignLint.Terminal.Styled
import Mathlib.Data.List.TakeWhile

/-!
# Texts without their escape sequences

An escape sequence that selects a style is deleted as a whole (`withoutEscapes_sequence`), and
nothing else is (`withoutEscapes_plain`). So of a styled text, written with its colours and weights,
the texts of its pieces are left, if these have no escape characters of their own
(`stripEscapes_write`).
-/

namespace DesignLint

/-- Characters between the bracket that opens an escape sequence and the letter that ends it. -/
def isStyleParameter (c : Char) : Bool := c.isDigit || c == ';' || c == ':'

/-- The number of characters of the escape sequence at the start of a text that selects a style: the
escape character, a bracket, parameters and the letter `m`. It is 0 if there is none. -/
def escapeLength : Text → Nat
  | '\x1b' :: '[' :: cs =>
    let parameters := cs.takeWhile isStyleParameter
    if (cs.drop parameters.length).head? = some 'm' then parameters.length + 3 else 0
  | _ => 0

/-- A text without its first `n` characters, and without the escape sequences behind them. -/
def withoutEscapes : Nat → Text → Text
  | _, [] => []
  | n + 1, _ :: cs => withoutEscapes n cs
  | 0, c :: cs =>
    match escapeLength (c :: cs) with
    | 0 => c :: withoutEscapes 0 cs
    | n + 1 => withoutEscapes n cs

/-- A text without its escape sequences. -/
def stripEscapes (s : String) : String := String.ofList (withoutEscapes 0 s.toList)

/-- A text without escape characters. -/
def Plain (s : String) : Prop := '\x1b' ∉ s.toList

section

variable {s t : String}

@[simp] theorem plain_append : Plain (s ++ t) ↔ Plain s ∧ Plain t := by
  simp [Plain, not_or]

theorem plain_join {ss : List String} : Plain (String.join ss) ↔ ∀ s ∈ ss, Plain s := by
  simp [Plain]

theorem Visible.plain (h : Visible s) : Plain s := h.not_mem (by decide)

@[simp] theorem plain_repr (n : Nat) : Plain n.repr := (visible_toString n).plain

instance (s : String) : Decidable (Plain s) := inferInstanceAs (Decidable (_ ∉ _))

/-! ### Escape sequences -/

theorem withoutEscapes_append (as cs : Text) :
    withoutEscapes as.length (as ++ cs) = withoutEscapes 0 cs := by
  induction as with
  | nil => rfl
  | cons a as ih => rw [List.length_cons, List.cons_append, withoutEscapes, ih]

theorem escapeLength_of_ne {c : Char} (h : c ≠ '\x1b') (cs : Text) : escapeLength (c :: cs) = 0 := by
  unfold escapeLength
  split
  · next heq =>
    rw [List.cons.injEq] at heq
    exact absurd heq.1 h
  · rfl

theorem withoutEscapes_plain {as : Text} (h : '\x1b' ∉ as) (cs : Text) :
    withoutEscapes 0 (as ++ cs) = as ++ withoutEscapes 0 cs := by
  induction as with
  | nil => rfl
  | cons a as ih =>
    rw [List.mem_cons, not_or] at h
    rw [List.cons_append, withoutEscapes, escapeLength_of_ne (Ne.symm h.1)]
    exact congrArg _ (ih h.2)

/-- **An escape sequence is deleted as a whole.** -/
theorem withoutEscapes_sequence {code : String} (h : code.toList.all isStyleParameter) (cs : Text) :
    withoutEscapes 0 ((escapeSequence code).toList ++ cs) = withoutEscapes 0 cs := by
  have htext : (escapeSequence code).toList ++ cs =
      '\x1b' :: '[' :: (code.toList ++ 'm' :: cs) := by
    simp [escapeSequence]
  have hparameters : (code.toList ++ 'm' :: cs).takeWhile isStyleParameter = code.toList := by
    rw [List.takeWhile_append_of_pos (List.all_eq_true.mp h),
      List.takeWhile_cons_of_neg (by decide), List.append_nil]
  have hlength : escapeLength ('\x1b' :: '[' :: (code.toList ++ 'm' :: cs)) =
      code.toList.length + 3 := by
    simp [escapeLength, hparameters]
  have hskip := withoutEscapes_append ('[' :: (code.toList ++ ['m'])) cs
  rw [htext, withoutEscapes, hlength]
  simpa using hskip

/-! ### Styled texts -/

theorem withoutEscapes_styled {p : Piece} (h : Plain p.text) (cs : Text) :
    withoutEscapes 0 (p.styled.toList ++ cs) = p.text.toList ++ withoutEscapes 0 cs := by
  have hink : ∀ i : Ink, i.code.toList.all isStyleParameter := by
    intro i
    cases i <;> rfl
  have hinked : ∀ cs, withoutEscapes 0 (p.inked.toList ++ cs) =
      p.text.toList ++ withoutEscapes 0 cs := by
    intro cs
    unfold Piece.inked
    cases p.ink with
    | none => exact withoutEscapes_plain h cs
    | some i =>
      simp only [String.toList_append, List.append_assoc]
      rw [withoutEscapes_sequence (hink i), withoutEscapes_plain h,
        withoutEscapes_sequence rfl]
  unfold Piece.styled
  split
  · simp only [String.toList_append, List.append_assoc]
    rw [withoutEscapes_sequence rfl, hinked, withoutEscapes_sequence rfl]
  · exact hinked cs

/-- **Of a styled text the texts of its pieces are left.** -/
theorem stripEscapes_write {x : Styled} (h : ∀ p ∈ x, Plain p.text) :
    stripEscapes (x.write true) = x.write false := by
  have hlist : withoutEscapes 0 (x.write true).toList = (x.write false).toList := by
    simp only [Styled.write, String.toList_join, List.flatMap_map]
    induction x with
    | nil => rfl
    | cons p x ih =>
      rw [List.flatMap_cons, List.flatMap_cons]
      have hp := withoutEscapes_styled (h p (by simp)) (x.flatMap fun q => (q.write true).toList)
      have hx := ih fun q hq => h q (by simp [hq])
      rw [hx] at hp
      exact hp
  rw [stripEscapes, hlist, String.ofList_toList]

end

end DesignLint
