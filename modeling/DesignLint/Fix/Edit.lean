import DesignLint.Text.Basic

/-!
# Edits

An `Edit` replaces a span of a text.  `splice` carries out edits from the last one to the first, so
that no edit moves the span of one that is still to come.
-/

namespace DesignLint

/-- The replacement of a span by a text. -/
structure Edit where
  span : Span
  text : Text
deriving DecidableEq, Repr

namespace Edit

/-- Carries out one edit. -/
def apply (cs : Text) (e : Edit) : Text :=
  cs.takeBytes e.span.start ++ e.text ++ cs.dropBytes e.span.stop

/-- Moves an edit to the left. -/
def shiftLeft (e : Edit) (n : Nat) : Edit := ⟨⟨e.span.start - n, e.span.stop - n⟩, e.text⟩

end Edit

/-- Carries out edits, those that start later first. -/
def splice (cs : Text) (es : List Edit) : Text :=
  (es.mergeSort fun a b => b.span.start ≤ a.span.start).foldl Edit.apply cs

/-- The part of a text that a span covers, after the edits inside the span. -/
def spliceWithin (cs : Text) (s : Span) (es : List Edit) : Text :=
  splice (cs.slice s) ((es.filter (·.span.within s)).map (·.shiftLeft s.start))

end DesignLint
