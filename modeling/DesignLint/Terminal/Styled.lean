import DesignLint.Text.Basic

/-!
# Styled text

A `Styled` text is a sequence of pieces, each with a style.  `Styled.write` writes it with or
without the escape sequences that a terminal shows as colours and weights; without them only the
texts of the pieces are left.
-/

namespace DesignLint

/-- Colours of a terminal. -/
inductive Ink
  | red
  | green
  | yellow
  | blue
  | cyan
  | grey
deriving DecidableEq, Repr

/-- The number that selects a colour. -/
def Ink.code : Ink → String
  | .red => "31"
  | .green => "32"
  | .yellow => "33"
  | .blue => "34"
  | .cyan => "36"
  | .grey => "90"

/-- The escape sequence with a number. -/
def escapeSequence (code : String) : String := "\x1b[" ++ code ++ "m"

/-- A piece of text with a colour and a weight. -/
structure Piece where
  text : String
  ink : Option Ink
  bold : Bool
deriving DecidableEq, Repr

namespace Piece

/-- A piece in its colour. -/
def inked (p : Piece) : String :=
  match p.ink with
  | some i => escapeSequence i.code ++ p.text ++ escapeSequence "39"
  | none => p.text

/-- A piece in its colour and weight. -/
def styled (p : Piece) : String :=
  if p.bold then escapeSequence "1" ++ p.inked ++ escapeSequence "0" else p.inked

/-- A piece as it is written. -/
def write (color : Bool) (p : Piece) : String := if color then p.styled else p.text

end Piece

/-- A text whose parts have styles. -/
abbrev Styled := List Piece

namespace Styled

/-- Text without a style. -/
def plain (s : String) : Styled := [⟨s, none, false⟩]

/-- Bold text. -/
def bold (s : String) : Styled := [⟨s, none, true⟩]

/-- Coloured text. -/
def ink (i : Ink) (s : String) : Styled := [⟨s, some i, false⟩]

/-- Bold text in a colour. -/
def boldInk (i : Ink) (s : String) : Styled := [⟨s, some i, true⟩]

/-- A styled text as it is written. -/
def write (color : Bool) (t : Styled) : String := String.join (t.map (Piece.write color))

end Styled

end DesignLint
