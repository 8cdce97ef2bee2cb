import DesignLint.Proofs.Markup.Search

/-!
# Where comments of scripts are

A reader of comments goes from piece to piece (`Reached`), each of them behind the one before it
(`exists_passes_pieceAt`). No element starts in a comment (`not_inSpans_of_mem_findElements`).
-/

namespace DesignLint.Markup

/-- The point behind a piece. -/
def Piece.next : Piece → Cursor
  | .comment next => next
  | .other next => next

/-- The points of a script that a reader of comments reaches, outside comments, strings and template
literals, with whether only blanks precede them on their line. -/
inductive Reached (cs : Text) : Bool → Cursor → Prop
  | start : Reached cs true (.start cs)
  | next {fresh : Bool} {o : Nat} {c : Char} {ds : Text} (h : Reached cs fresh ⟨o, c :: ds⟩) :
    Reached cs (freshAfter fresh (Cursor.upTo ⟨o, c :: ds⟩ (pieceAt fresh o c ds).next))
      (pieceAt fresh o c ds).next

section

variable {fresh : Bool} {fuel o : Nat} {c : Char} {cs : Text} {k : Cursor} {s : Span}

theorem exists_passes_pieceAt (fresh : Bool) (o : Nat) (c : Char) (cs : Text) :
    ∃ us, Cursor.Passes ⟨o, c :: cs⟩ (c :: us) (pieceAt fresh o c cs).next := by
  have hsingle : ∃ us, Cursor.Passes ⟨o, c :: cs⟩ (c :: us) ⟨o + c.utf8Size, cs⟩ :=
    ⟨[], Cursor.passes_one o c cs⟩
  unfold pieceAt
  cases cs with
  | nil => exact hsingle
  | cons d ds =>
    simp only
    split_ifs with hblock hline hquote hback
    · simp only [Bool.and_eq_true, beq_iff_eq] at hblock
      obtain ⟨rfl, rfl⟩ := hblock
      have hopen : Cursor.Passes ⟨o, '/' :: '*' :: ds⟩ ['/', '*'] ⟨o + 2, ds⟩ := ⟨rfl, rfl⟩
      cases hend : blockEnd ⟨o + 2, ds⟩ with
      | none => exact ⟨_, hopen.trans ⟨(List.append_nil ds).symm, rfl⟩⟩
      | some l =>
        obtain ⟨us, hus, -⟩ := blockEnd_eq_some.mp hend
        exact ⟨_, hopen.trans hus⟩
    · simp only [Bool.and_eq_true, beq_iff_eq] at hline
      obtain ⟨⟨rfl, rfl⟩, -⟩ := hline
      have hopen : Cursor.Passes ⟨o, '/' :: '/' :: ds⟩ ['/', '/'] ⟨o + 2, ds⟩ := ⟨rfl, rfl⟩
      obtain ⟨us, hus, -⟩ := exists_lineEnd ⟨o + 2, ds⟩
      exact ⟨_, hopen.trans hus⟩
    · simp only [Bool.or_eq_true, beq_iff_eq] at hquote
      have h1 : c.utf8Size = 1 := utf8Size_quote hquote
      cases hend : closeQuote c (o + 1) (d :: ds) with
      | none => exact hsingle
      | some l =>
        obtain ⟨us, -, hus⟩ := (closeQuote_eq_some hquote).mp hend
        rw [← h1] at hus
        exact ⟨_, passes_cons hus⟩
    · rw [beq_iff_eq] at hback
      subst hback
      cases hend : templateEnd ⟨o + 1, d :: ds⟩ with
      | none => exact hsingle
      | some l =>
        obtain ⟨us, -, hus⟩ := templateEnd_eq_some.mp hend
        exact ⟨_, passes_cons hus⟩
    · exact hsingle

theorem exists_of_comment {next : Cursor} (h : pieceAt fresh o c cs = .comment next) :
    c = '/' ∧ ∃ d ds, cs = d :: ds ∧ (d = '*' ∨ d = '/') := by
  have hquoted : ∀ {end? : Option Cursor} {l : Cursor},
      (end?.map Piece.other).getD (.other l) ≠ .comment next := by
    rintro (_ | l) l' <;> simp
  unfold pieceAt at h
  cases cs with
  | nil => cases h
  | cons d ds =>
    simp only at h
    split_ifs at h with hblock hline hquote hback
    · simp only [Bool.and_eq_true, beq_iff_eq] at hblock
      exact ⟨hblock.1, d, ds, rfl, Or.inl hblock.2⟩
    · simp only [Bool.and_eq_true, beq_iff_eq] at hline
      exact ⟨hline.1.1, d, ds, rfl, Or.inr hline.1.2⟩
    · exact absurd h hquoted
    · exact absurd h hquoted

theorem lt_next_pieceAt (fresh : Bool) (o : Nat) (c : Char) (cs : Text) :
    o < (pieceAt fresh o c cs).next.offset := by
  obtain ⟨us, hus⟩ := exists_passes_pieceAt fresh o c cs
  exact hus.lt (by simp)

theorem mem_commentsFrom (h : s ∈ commentsFrom fresh (fuel + 1) ⟨o, c :: cs⟩) :
    (∃ next, pieceAt fresh o c cs = .comment next ∧ s = ⟨o, next.offset⟩) ∨
      s ∈ commentsFrom (freshAfter fresh (Cursor.upTo ⟨o, c :: cs⟩ (pieceAt fresh o c cs).next)) fuel
        (pieceAt fresh o c cs).next := by
  simp only [commentsFrom] at h
  split at h
  · next next hp =>
    rcases List.mem_cons.mp h with rfl | h
    · exact Or.inl ⟨next, hp, rfl⟩
    · rw [hp]
      exact Or.inr h
  · next next hp =>
    rw [hp]
    exact Or.inr h

/-- Comments stand behind the point from which they are looked for. -/
theorem le_start_of_mem_commentsFrom (h : s ∈ commentsFrom fresh fuel k) : k.offset ≤ s.start := by
  induction fuel generalizing fresh k with
  | zero => simp [commentsFrom] at h
  | succ fuel ih =>
    obtain ⟨o, _ | ⟨c, cs⟩⟩ := k
    · simp [commentsFrom] at h
    · rcases mem_commentsFrom h with ⟨next, -, rfl⟩ | h
      · exact Nat.le_refl _
      · exact Nat.le_trans (Nat.le_of_lt (lt_next_pieceAt fresh o c cs)) (ih h)

end

/-- **No element starts in a comment.** -/
theorem not_inSpans_of_mem_findElements {cs name : Text} {e : Element}
    (h : e ∈ findElements cs name) : inSpans (commentSpans cs) e.tag.start = false := by
  obtain ⟨⟨before, k⟩, -, helem⟩ := List.mem_filterMap.mp h
  simp only [elementAt?] at helem
  split_ifs at helem with hc
  obtain ⟨⟨e', l⟩, hread, rfl⟩ := Option.map_eq_some_iff.mp helem
  obtain ⟨p, m, te, htag⟩ := readOpeningTag_eq_some.mp hread
  rw [(withClosing_eq name e' l).1, htag.tag_eq]
  simp only [Bool.or_eq_true, not_or, Bool.not_eq_true] at hc
  exact hc.2

end DesignLint.Markup
