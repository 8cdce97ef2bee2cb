/-!
# Decimal digits of a binary floating-point number

A finite number is `m · 2 ^ q` (`Binary.ofFloat?`).  The reals that round to it form an interval,
whose ends belong to it when `m` is even.  `Binary.shortest` looks for the least number of decimal
digits of which some arrangement lies in that interval, and takes the nearest; `Binary.rounded`
rounds the exact value to a fixed number of places, a tie going to the even neighbour.
-/

namespace DesignLint.Decimal

/-- The number `m · 2 ^ q`; `edge` marks the least mantissa of its exponent, below which the
numbers lie twice as close. -/
structure Binary where
  m : Nat
  q : Int
  edge : Bool
deriving Repr

/-- Digits `d₁d₂…` of `0.d₁d₂… · 10 ^ point`. -/
structure Digits where
  digits : List Char
  point : Int
deriving Repr

namespace Binary

/-- The absolute value of a finite number. -/
def ofFloat? (x : Float) : Option Binary :=
  let bits := x.toBits.toNat
  let exponent : Nat := bits / Nat.pow 2 52 % 2048
  let fraction := bits % Nat.pow 2 52
  if exponent == 2047 then none
  else if exponent == 0 then some ⟨fraction, -1074, false⟩
  else some ⟨Nat.pow 2 52 + fraction, (exponent : Int) - 1075, fraction == 0 && exponent > 1⟩

/-- `a · 2 ^ q` over a common denominator: a numerator and a denominator. -/
def scaled (a : Nat) (q : Int) : Nat × Nat :=
  if q < 0 then (a, Nat.pow 2 (-q).toNat) else (a * Nat.pow 2 q.toNat, 1)

/-- The number of digits of `n` in base ten. -/
def digitCount (n : Nat) : Nat := (Nat.toDigits 10 n).length

/-- The least `j ≤ bound` with `den ≤ num · 10 ^ j`. -/
def leadingZeros (num den : Nat) : Nat → Nat → Nat
  | 0, j => j
  | bound + 1, j => if den ≤ num * Nat.pow 10 j then j else leadingZeros num den bound (j + 1)

/-- The power of ten of the first digit of `num / den`. -/
def magnitude (num den : Nat) : Int :=
  if den ≤ num then (digitCount (num / den) : Int) - 1
  else -(leadingZeros num den 400 1 : Nat)

/-- A numerator and a denominator of `(num / den) / 10 ^ k`. -/
def overTen (num den : Nat) (k : Int) : Nat × Nat :=
  if k < 0 then (num * Nat.pow 10 (-k).toNat, den)
  else (num, den * Nat.pow 10 k.toNat)

/-- Whether `d · 10 ^ k` rounds to the number, where `(num / den) / 10 ^ k` is the number in units
of that grid and the quarter steps are those of its mantissa. -/
def hits (b : Binary) (k : Int) (d : Nat) : Bool :=
  let (n, den) := scaled 1 (b.q - 2)
  let (n, den) := overTen n den k
  let low := n * (4 * b.m - (if b.edge then 1 else 2))
  let high := n * (4 * b.m + 2)
  if b.m % 2 == 0 then low ≤ d * den && d * den ≤ high else low < d * den && d * den < high

/-- The point of the grid of spacing `10 ^ k` that is nearest to the number among those that round
to it. -/
def nearest? (b : Binary) (k : Int) : Option Nat :=
  let (n, den) := scaled b.m b.q
  let (n, den) := overTen n den k
  let d := n / den
  match b.hits k d, b.hits k (d + 1) with
  | true, false => some d
  | false, true => some (d + 1)
  | false, false => none
  | true, true =>
    let below := n - d * den
    let above := (d + 1) * den - n
    some (if below < above || (below == above && d % 2 == 0) then d else d + 1)

/-- Digits without trailing zeros. -/
def trimZeros (ds : List Char) : List Char := (ds.reverse.dropWhile (· == '0')).reverse

/-- The shortest digits that read back as the number. -/
def shortest (b : Binary) : Digits :=
  let (n, den) := scaled b.m b.q
  let top := magnitude n den
  let found := (List.range 17).findSome? fun (i : Nat) =>
    let k := top - (i : Nat)
    (b.nearest? k).map fun d => (d, k)
  match found with
  | some (d, k) =>
    let ds := Nat.toDigits 10 d
    ⟨trimZeros ds, (ds.length : Int) + k⟩
  | none => ⟨[], 0⟩

/-- The number in units of `10 ^ -places`, rounded to the nearest, a tie to the even neighbour. -/
def rounded (b : Binary) (places : Nat) : Nat :=
  let (n, den) := scaled b.m b.q
  let n := n * Nat.pow 10 places
  let d := n / den
  let twice := 2 * (n % den)
  if twice < den || (twice == den && d % 2 == 0) then d else d + 1

end Binary

end DesignLint.Decimal
