import DesignLint.Text.Basic

/-!
# Reading decimal numbers

`Decimal.read?` is the floating-point number nearest to a decimal text: an optional sign, digits
with at most one point among or beside them, and an optional exponent.
-/

namespace DesignLint.Decimal

/-- The value of a sequence of decimal digits. -/
def natOfDigits (ds : List Char) : Nat := ds.foldl (fun n d => n * 10 + (d.toNat - '0'.toNat)) 0

/-- Splits a sign off; `true` stands for minus. -/
def takeSign : Text → Bool × Text
  | '+' :: cs => (false, cs)
  | '-' :: cs => (true, cs)
  | cs => (false, cs)

/-- The exponent that a text after the digits stands for. -/
def exponent? (cs : Text) : Option Int :=
  match cs with
  | [] => some 0
  | e :: cs =>
    let (negative, ds) := takeSign cs
    if (e == 'e' || e == 'E') && ds != [] && ds.all Char.isDigit then
      some (if negative then -(natOfDigits ds : Int) else natOfDigits ds)
    else none

/-- `n · 10 ^ e` to the nearest; the bounds lie far outside the range of floating-point numbers. -/
def ofPower (n : Nat) (places : Nat) (e : Int) : Float :=
  if n == 0 then 0
  else if e < 0 then
    if (-e).toNat > places + 2000 then 0 else Float.ofScientific n true (-e).toNat
  else if e > places + 2000 then 1 / 0
  else Float.ofScientific n false e.toNat

/-- The number that a text stands for. -/
def read? (cs : Text) : Option Float := do
  let (negative, cs) := takeSign cs
  let (whole, cs) := cs.span Char.isDigit
  let (fraction, cs) :=
    match cs with
    | '.' :: cs => cs.span Char.isDigit
    | cs => ([], cs)
  guard (whole != [] || fraction != [])
  let e ← exponent? cs
  let digits := whole ++ fraction
  let x := ofPower (natOfDigits digits) digits.length (e - fraction.length)
  return if negative then -x else x

end DesignLint.Decimal
