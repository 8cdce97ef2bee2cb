import DesignLint.Proofs.Bytewise.Enclosure
import DesignLint.Proofs.Markup.Comment
import DesignLint.Proofs.Text.Blank
import DesignLint.Proofs.Text.Position

/-!
# Comments of scripts, byte by byte

`Bytewise.commentsFrom` looks at two bytes at a time for the start of a comment, a string or a
template literal. Before a line comment it cuts the text to look at what stands in front of it on
its line, and to find the end of a comment it cuts it again. It finds the comments that
`Markup.commentSpans` lists (`commentsFrom_eq`), which carries along what the bytewise reader looks
up each time: whether the line is blank so far (`blankAt?_eq`).
-/

namespace DesignLint.Bytewise

open Markup (backtick freshAfter)

/-- Whether only blanks stand in front of an offset on its line. -/
def blankAt? (src : Text) (i : Nat) : Option Bool :=
  (src.before? i).map fun us => (Text.trim (Text.lastLine us)).isEmpty

/-- What begins at an offset of a script, with the offset behind it. -/
inductive Piece
  | comment (stop : Nat)
  | other (stop : Nat)

/-- A piece that a reader of characters finds. -/
def Piece.ofPiece : Markup.Piece → Piece
  | .comment next => .comment next.offset
  | .other next => .other next.offset

/-- Reads what begins with two bytes at an offset. -/
def pieceAt (src : Text) (i : Nat) (c d : Char) : Option Piece :=
  if c = '/' ∧ d = '*' then do
    let rest ← src.from? (i + 2)
    return .comment (((Text.find? ['*', '/'] rest).map (i + 2 + · + 2)).getD src.size)
  else if c = '/' ∧ d = '/' then do
    if ← blankAt? src i then
      let rest ← src.from? i
      return .comment (((Text.find? ['\n'] rest).map (i + ·)).getD src.size)
    else return .other (i + 1)
  else if c = '"' ∨ c = '\'' then some (.other ((stringEnd src c (i + 1)).getD (i + 1)))
  else if c = backtick then do
    let stop? ← templateEnd src (i + 1)
    return .other (stop?.getD (i + 1))
  else some (.other (i + 1))

/-- The comments from an offset on. -/
def commentsFrom (src : Text) (i : Nat) : Option (List Span) :=
  match src.at? i, src.at? (i + 1) with
  | some c, some d => do
    match ← pieceAt src i c d with
    | .comment stop =>
      if _ : i < stop ∧ stop ≤ src.size then do
        let spans ← commentsFrom src stop
        return ⟨i, stop⟩ :: spans
      else none
    | .other stop => if _ : i < stop ∧ stop ≤ src.size then commentsFrom src stop else none
  | _, _ => some []
termination_by src.size - i

/-! ### Lines that are blank so far -/

theorem isEmpty_trim_iff {us : Text} : (Text.trim us).isEmpty ↔ ∀ c ∈ us, isBlank c := by
  rw [List.isEmpty_iff]
  constructor
  · intro h c hc
    obtain ⟨bs, hus, hbs, -⟩ := Text.exists_trim us
    rw [h, List.append_nil] at hus
    rw [hus] at hc
    rcases List.mem_append.mp hc with hc | hc
    · exact List.mem_takeWhile_imp hc
    · exact hbs c hc
  · intro h
    have hstart : Text.trimStart us = [] := List.dropWhile_eq_nil_iff.mpr h
    rw [Text.trim, hstart]
    rfl

theorem freshAfter_append (fresh : Bool) (us vs : Text) :
    freshAfter fresh (us ++ vs) = freshAfter (freshAfter fresh us) vs := by
  induction us generalizing fresh with
  | nil => rfl
  | cons c us ih => exact ih _

theorem freshAfter_iff (us : Text) : freshAfter true us ↔ ∀ c ∈ Text.lastLine us, isBlank c := by
  induction us using List.reverseRecOn with
  | nil => simp [freshAfter, Text.lastLine]
  | append_singleton us c ih =>
    rw [freshAfter_append]
    simp only [freshAfter, Bool.or_eq_true, Bool.and_eq_true, beq_iff_eq]
    by_cases hc : c = '\n'
    · subst hc
      simp [Text.lastLine_break]
    · rw [Text.lastLine_concat us hc, List.forall_mem_append, ih]
      simp [hc]

section

variable {src before ds : Text} {c d x : Char} {o : Nat} {k : Cursor} {fresh : Bool}

theorem blankAt?_eq (hk : (Cursor.start src).Passes before k) :
    blankAt? src k.offset = some (freshAfter true before) := by
  have hsame : (Text.trim (Text.lastLine before)).isEmpty = freshAfter true before := by
    rw [Bool.eq_iff_iff, isEmpty_trim_iff, freshAfter_iff]
  rw [blankAt?, Text.before?_eq hk, Option.map_some, hsame]

/-! ### Pieces -/

/-- **A piece is read byte by byte**, if it begins with an ASCII character. -/
theorem pieceAt_eq (hk : Cursor.In src ⟨o, c :: d :: ds⟩) (hc : c.toNat < 128)
    (hx : src.at? (o + 1) = some x) (hfresh : blankAt? src o = some fresh) :
    pieceAt src o c x = some (.ofPiece (Markup.pieceAt fresh o c (d :: ds))) := by
  have hnext : Cursor.In src ⟨o + 1, d :: ds⟩ := by
    have := in_next hk
    rwa [Text.utf8Size_of_lt hc] at this
  have hmark : ∀ y : Char, y.toNat < 128 → (x = y ↔ d = y) := fun y hy =>
    Text.eq_iff_of_at? hnext rfl hy hx
  rw [pieceAt, Markup.pieceAt]
  simp only [hmark _ (show '*'.toNat < 128 by decide), hmark _ (show '/'.toNat < 128 by decide)]
  by_cases hblock : c = '/' ∧ d = '*'
  · obtain ⟨rfl, rfl⟩ := hblock
    have hin : Cursor.In src ⟨o + 2, ds⟩ := in_next hnext
    have hend := blockEnd_map_offset ⟨o + 2, ds⟩
    simp only at hend
    rw [if_pos ⟨rfl, rfl⟩, Text.from?_eq hin]
    simp only [Option.bind_eq_bind, Option.bind_some, ← hend, hin.size_eq]
    cases Markup.blockEnd ⟨o + 2, ds⟩ <;> rfl
  by_cases hslash : c = '/' ∧ d = '/'
  · obtain ⟨rfl, rfl⟩ := hslash
    have hline : Markup.lineEnd ⟨o, '/' :: '/' :: ds⟩ = Markup.lineEnd ⟨o + 2, ds⟩ := rfl
    rw [if_neg hblock, if_pos ⟨rfl, rfl⟩, hfresh, Text.from?_eq hk]
    cases fresh with
    | false => rfl
    | true =>
      simp only [Option.bind_eq_bind, Option.bind_some, lineEnd_offset hk, hline]
      rfl
  have hmodel : (c == '/' && d == '*') = false := by simpa using hblock
  have hmodel' : (c == '/' && d == '/' && fresh) = false := by
    rw [Bool.and_eq_false_iff]
    left
    simpa using hslash
  have hsize := Text.utf8Size_of_lt hc
  simp only [if_neg hblock, if_neg hslash, hmodel, hmodel', Bool.false_eq_true, if_false,
    Bool.or_eq_true, beq_iff_eq, hsize]
  split_ifs with hquote hback
  · rw [stringEnd_eq hc hnext]
    cases Markup.closeQuote c (o + 1) (d :: ds) <;> rfl
  · have hend := templateEnd_eq hnext
    simp only at hend
    simp only [hend, Option.bind_eq_bind, Option.bind_some]
    cases Markup.templateEnd ⟨o + 1, d :: ds⟩ <;> rfl
  · rfl

theorem pieceAt_of_le {i : Nat} (hc : 128 ≤ c.toNat) (x : Char) :
    pieceAt src i c x = some (.other (i + 1)) := by
  have hne : ∀ d : Char, d.toNat < 128 → c ≠ d := fun _ => ne_of_le hc
  rw [pieceAt, if_neg fun h => hne _ (by decide) h.1, if_neg fun h => hne _ (by decide) h.1,
    if_neg (by rw [not_or]; exact ⟨hne _ (by decide), hne _ (by decide)⟩),
    if_neg (hne _ (by decide))]

theorem markup_pieceAt_of_le (hc : 128 ≤ c.toNat) (ds : Text) :
    Markup.pieceAt fresh o c ds = .other ⟨o + c.utf8Size, ds⟩ := by
  have hne : ∀ d : Char, d.toNat < 128 → (c == d) = false := fun _ => beq_of_le hc
  rw [Markup.pieceAt.eq_def]
  cases ds with
  | nil => rfl
  | cons d ds =>
    simp only [hne _ (show '/'.toNat < 128 by decide), hne _ (show '"'.toNat < 128 by decide),
      hne _ (show '\''.toNat < 128 by decide), hne _ (show backtick.toNat < 128 by decide),
      Bool.false_and, Bool.or_self, Bool.false_eq_true, if_false]

/-! ### All comments -/

theorem passesOver_commentsFrom (src : Text) : src.PassesOver (commentsFrom src) := by
  intro i x hx hge
  have hahead : i < i + 1 ∧ i + 1 ≤ src.size := ⟨Nat.lt_succ_self i, Text.lt_size_of_at? hx⟩
  rw [commentsFrom, hx]
  cases hy : src.at? (i + 1) with
  | none => rw [commentsFrom, hy]
  | some y =>
    simp only [pieceAt_of_le hge, Option.bind_eq_bind, Option.bind_some, dif_pos hahead]

/-- **Comments are found byte by byte**, without a wrong cut. -/
theorem commentsFrom_eq {fuel : Nat} (hk : (Cursor.start src).Passes before k)
    (hf : k.rest.length ≤ fuel) :
    commentsFrom src k.offset = some (Markup.commentsFrom (freshAfter true before) fuel k) := by
  induction fuel generalizing before k with
  | zero =>
    have hrest : k.rest = [] := List.length_eq_zero_iff.mp (Nat.le_zero.mp hf)
    rw [commentsFrom, Text.at?_eq_none ⟨before, hk⟩ hrest]
    rfl
  | succ fuel ih =>
    obtain ⟨o, _ | ⟨c, cs⟩⟩ := k
    · rw [commentsFrom, Text.at?_eq_none ⟨before, hk⟩ rfl]
      rfl
    have hin : Cursor.In src ⟨o, c :: cs⟩ := ⟨before, hk⟩
    obtain ⟨us, hus⟩ := Markup.exists_passes_pieceAt (freshAfter true before) o c cs
    -- the reader of characters goes on behind the piece, and so does the reader of bytes
    have hbehind := ih (hk.trans hus) (by
      have hlen := congrArg List.length hus.1
      simp only [List.length_cons, List.length_append] at hlen hf
      omega)
    have hahead := hin.ahead hus (by simp)
    rw [freshAfter_append, ← hus.upTo_eq] at hbehind
    by_cases hascii : c.toNat < 128
    · have hx : src.at? o = some c := Text.at?_eq_some hin rfl hascii
      have hsize := hin.size_eq
      simp only [Text.size_cons, Text.utf8Size_of_lt hascii] at hsize
      rw [commentsFrom, hx]
      cases hy : src.at? (o + 1) with
      | none =>
        have hle := Text.at?_eq_none_iff.mp hy
        obtain rfl : cs = [] := Text.size_eq_zero.mp (by omega)
        cases fuel <;> rfl
      | some x =>
        have hlt := Text.lt_size_of_at? hy
        rcases cs with _ | ⟨d, ds⟩
        · simp only [Text.size_nil] at hsize
          omega
        · simp only [pieceAt_eq hin hascii hy (blankAt?_eq hk), Option.bind_eq_bind,
            Option.bind_some, Markup.commentsFrom]
          cases hpiece : Markup.pieceAt (freshAfter true before) o c (d :: ds) with
          | comment next =>
            rw [hpiece] at hahead hbehind
            have hspans : commentsFrom src next.offset = some _ := hbehind
            simp only [Piece.ofPiece, hspans, Option.bind_some]
            exact dif_pos hahead
          | other next =>
            rw [hpiece] at hahead hbehind
            exact (dif_pos hahead).trans hbehind
    · have hge := Nat.le_of_not_lt hascii
      have hpass := (passesOver_commentsFrom src).eq hin rfl (Nat.zero_le _) (Or.inr hge)
      rw [markup_pieceAt_of_le hge] at hbehind
      rw [Markup.commentsFrom, markup_pieceAt_of_le hge]
      exact hpass.trans hbehind

end

end DesignLint.Bytewise
