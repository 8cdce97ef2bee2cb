import DesignLint.Decimal.Digits

/-!
# Layouts of decimal numbers

A `Layout` says how shortest digits are written: between which powers of ten no exponent is used,
and whether a whole number keeps a fraction.  `Layout.document` is the layout of numbers in data
documents, `Layout.plain` that of messages, and `fixed` writes a fixed number of places.
-/

namespace DesignLint.Decimal

/-- How the digits of a number are arranged. -/
structure Layout where
  /-- The least and the greatest power of ten of a leading digit that is written without an
  exponent; all of them if absent. -/
  positional : Option (Int × Int)
  /-- Whether a whole number ends in `.0`. -/
  keepFraction : Bool

/-- Data documents: exponents outside `10 ^ -5 … 10 ^ 15`, and always a fraction or an exponent. -/
def Layout.document : Layout := ⟨some (-5, 15), true⟩

/-- Messages: never an exponent, and no fraction on whole numbers. -/
def Layout.plain : Layout := ⟨none, false⟩

/-- Whether the sign bit of a number is set. -/
def isNegative (x : Float) : Bool := x.toBits.toNat ≥ Nat.pow 2 63

/-- Digits in positional notation. -/
def Digits.positional (d : Digits) (keepFraction : Bool) : List Char :=
  let zeros (n : Int) : List Char := List.replicate n.toNat '0'
  let n := d.digits.length
  if d.digits == [] then if keepFraction then ['0', '.', '0'] else ['0']
  else if d.point ≤ 0 then '0' :: '.' :: zeros (-d.point) ++ d.digits
  else if n ≤ d.point then
    d.digits ++ zeros (d.point - n) ++ (if keepFraction then ['.', '0'] else [])
  else d.digits.take d.point.toNat ++ '.' :: d.digits.drop d.point.toNat

/-- Digits with an exponent. -/
def Digits.scientific (d : Digits) : List Char :=
  match d.digits with
  | [] => ['0']
  | [c] => c :: 'e' :: (toString (d.point - 1)).toList
  | c :: cs => c :: '.' :: cs ++ 'e' :: (toString (d.point - 1)).toList

/-- The text of a number in a layout. -/
def Layout.write (l : Layout) (x : Float) : String :=
  if x.isNaN then "NaN"
  else
    let sign := if isNegative x then ['-'] else []
    match Binary.ofFloat? x with
    | none => String.ofList (sign ++ "inf".toList)
    | some b =>
      let d := if b.m == 0 then ⟨[], 0⟩ else b.shortest
      let exponent := d.point - 1
      let plain :=
        match l.positional with
        | none => true
        | some (least, greatest) => d.digits == [] || (least ≤ exponent && exponent ≤ greatest)
      String.ofList (sign ++ if plain then d.positional l.keepFraction else d.scientific)

/-- A number with exactly `places` digits after the point. -/
def fixed (places : Nat) (x : Float) : String :=
  if x.isNaN then "NaN"
  else
    let sign := if isNegative x then ['-'] else []
    match Binary.ofFloat? x with
    | none => String.ofList (sign ++ "inf".toList)
    | some b =>
      let ds := Nat.toDigits 10 (b.rounded places)
      let ds := List.replicate (places + 1 - ds.length) '0' ++ ds
      let whole := ds.length - places
      String.ofList (sign ++ ds.take whole ++ if places == 0 then [] else '.' :: ds.drop whole)

end DesignLint.Decimal
