/-!
# Text, byte offsets and spans

A text is a list of characters.  Positions in it are byte offsets into its UTF-8 form, because
that is what an editor or another tool can act on; `Text.size` is the number of bytes, a `Span` is
a half-open range of offsets, and `Text.slice` is the part of a text that a span covers.

A `Cursor` is a point in a text: its offset together with everything that follows.  Scanners take
and return cursors, so that the offset of every construct is known without counting again.
-/

namespace DesignLint

/-- A text, character by character. -/
abbrev Text := List Char

namespace Text

/-- The number of bytes of a text in UTF-8. -/
def size : Text → Nat
  | [] => 0
  | c :: cs => c.utf8Size + size cs

@[simp] theorem size_nil : size [] = 0 := rfl

@[simp] theorem size_cons (c : Char) (cs : Text) : size (c :: cs) = c.utf8Size + size cs :=
  rfl

@[simp] theorem size_append (as bs : Text) : size (as ++ bs) = size as + size bs := by
  induction as with
  | nil => simp
  | cons c as ih => simp [ih, Nat.add_assoc]

/-- What is left of a text after its first `n` bytes. -/
def dropBytes : Nat → Text → Text
  | 0, cs => cs
  | _ + 1, [] => []
  | n + 1, c :: cs => dropBytes (n + 1 - c.utf8Size) cs

/-- The first `n` bytes of a text. -/
def takeBytes : Nat → Text → Text
  | 0, _ => []
  | _ + 1, [] => []
  | n + 1, c :: cs => c :: takeBytes (n + 1 - c.utf8Size) cs

@[simp] theorem dropBytes_zero (cs : Text) : dropBytes 0 cs = cs := by cases cs <;> rfl

@[simp] theorem takeBytes_zero (cs : Text) : takeBytes 0 cs = [] := by cases cs <;> rfl

@[simp] theorem takeBytes_nil (n : Nat) : takeBytes n [] = [] := by cases n <;> rfl

@[simp] theorem dropBytes_nil (n : Nat) : dropBytes n [] = [] := by cases n <;> rfl

theorem dropBytes_size_append (as bs : Text) : dropBytes (size as) (as ++ bs) = bs := by
  induction as with
  | nil => simp
  | cons c as ih =>
    have h := c.utf8Size_pos
    obtain ⟨n, hn⟩ : ∃ n, size (c :: as) = n + 1 := ⟨c.utf8Size + size as - 1, by simp; omega⟩
    have hs : n + 1 - c.utf8Size = size as := by rw [← hn]; simp
    rw [hn, List.cons_append, dropBytes, hs, ih]

theorem takeBytes_size_append (as bs : Text) : takeBytes (size as) (as ++ bs) = as := by
  induction as with
  | nil => simp
  | cons c as ih =>
    have h := c.utf8Size_pos
    obtain ⟨n, hn⟩ : ∃ n, size (c :: as) = n + 1 := ⟨c.utf8Size + size as - 1, by simp; omega⟩
    have hs : n + 1 - c.utf8Size = size as := by rw [← hn]; simp
    rw [hn, List.cons_append, takeBytes, hs, ih]

end Text

/-- A half-open range `[start, stop)` of byte offsets. -/
structure Span where
  start : Nat
  stop : Nat
deriving DecidableEq, Repr, Inhabited

namespace Span

/-- Two spans overlap when some offset lies strictly before both ends and after both starts. -/
def overlaps (s t : Span) : Bool := s.start < t.stop && t.start < s.stop

/-- Moves a span to the right. -/
def shift (s : Span) (n : Nat) : Span := ⟨s.start + n, s.stop + n⟩

/-- Spans are ordered by their start, then by their end. -/
def le (s t : Span) : Bool := s.start < t.start || (s.start == t.start && s.stop ≤ t.stop)

/-- `s.within t` holds when `s` lies inside `t`. -/
def within (s t : Span) : Bool := t.start ≤ s.start && s.stop ≤ t.stop

theorem overlaps_comm (s t : Span) : s.overlaps t = t.overlaps s := by
  simp [overlaps, Bool.and_comm]

end Span

namespace Text

/-- The characters of a text that a span covers. -/
def slice (cs : Text) (s : Span) : Text := takeBytes (s.stop - s.start) (dropBytes s.start cs)

theorem slice_append (as bs cs : Text) :
    slice (as ++ bs ++ cs) ⟨size as, size as + size bs⟩ = bs := by
  simp only [slice, List.append_assoc, dropBytes_size_append, Nat.add_sub_cancel_left,
    takeBytes_size_append]

end Text

/-- A point in a text: its offset and what follows it. -/
structure Cursor where
  offset : Nat
  rest : Text
deriving DecidableEq, Repr, Inhabited

namespace Cursor

/-- The point before the first character of a text. -/
def start (cs : Text) : Cursor := ⟨0, cs⟩

/-- The point at a byte offset of a text. -/
def atOffset (cs : Text) (offset : Nat) : Cursor := ⟨offset, cs.dropBytes offset⟩

/-- The point after `n` more characters. -/
def skip : Nat → Cursor → Cursor
  | 0, k => k
  | _ + 1, ⟨o, []⟩ => ⟨o, []⟩
  | n + 1, ⟨o, c :: cs⟩ => skip n ⟨o + c.utf8Size, cs⟩

/-- The point after the characters that satisfy `p`. -/
def skipWhile (p : Char → Bool) (k : Cursor) : Cursor :=
  go k.offset k.rest
where
  /-- Walks over the leading characters that satisfy `p`. -/
  go (o : Nat) : Text → Cursor
    | [] => ⟨o, []⟩
    | c :: cs => if p c then go (o + c.utf8Size) cs else ⟨o, c :: cs⟩

/-- The point after `lead`, when the text goes on with it. -/
def skipText (lead : Text) (k : Cursor) : Option Cursor :=
  if lead.isPrefixOf k.rest then some ⟨k.offset + lead.size, k.rest.drop lead.length⟩ else none

/-- The next point at which the text goes on with `lead`. -/
def find (lead : Text) (k : Cursor) : Option Cursor :=
  go k.offset k.rest
where
  /-- Tries one point after the other. -/
  go (o : Nat) : Text → Option Cursor
    | [] => if lead.isPrefixOf [] then some ⟨o, []⟩ else none
    | c :: cs => if lead.isPrefixOf (c :: cs) then some ⟨o, c :: cs⟩ else go (o + c.utf8Size) cs

/-- The text from one point up to a later one. -/
def upTo (k l : Cursor) : Text := k.rest.takeBytes (l.offset - k.offset)

theorem length_skipWhile_le (p : Char → Bool) (k : Cursor) :
    (k.skipWhile p).rest.length ≤ k.rest.length := by
  suffices h : ∀ (o : Nat) (cs : Text), (skipWhile.go p o cs).rest.length ≤ cs.length from
    h k.offset k.rest
  intro o cs
  fun_induction skipWhile.go p o cs with
  | case1 => simp
  | case2 o c cs h ih => simp only [List.length_cons]; omega
  | case3 => simp

theorem length_find_le {lead : Text} {k l : Cursor} (h : k.find lead = some l) :
    l.rest.length ≤ k.rest.length := by
  suffices H : ∀ (o : Nat) (cs : Text) (l : Cursor), find.go lead o cs = some l →
      l.rest.length ≤ cs.length from H k.offset k.rest l h
  intro o cs
  fun_induction find.go lead o cs with
  | case1 o => intro l h; simp at h; simp [← h]
  | case2 o h => intro l h; simp at h
  | case3 o c cs h => intro l h; simp at h; simp [← h]
  | case4 o c cs h ih => intro l h; have := ih l h; simp only [List.length_cons]; omega

theorem length_skip_le (n : Nat) (k : Cursor) : (k.skip n).rest.length ≤ k.rest.length := by
  fun_induction skip n k with
  | case1 => simp
  | case2 => simp
  | case3 n o c cs ih => exact Nat.le_succ_of_le ih

end Cursor

end DesignLint
