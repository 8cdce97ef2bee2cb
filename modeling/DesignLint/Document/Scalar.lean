import DesignLint.Decimal.Read
import DesignLint.Document.Basic

/-!
# Scalars without quotes

What a scalar that is written without quotes stands for: nothing, a truth value, an integer in one
of four bases, a floating-point number, or else the text itself.  `Document.settle` replaces every
such scalar of a document by what it stands for.
-/

namespace DesignLint.Document

/-- Spellings of nothing, besides no text at all. -/
def nullWords : List String := ["null", "Null", "NULL", "~"]

/-- Whether a scalar without quotes stands for nothing. -/
def isNullWord (s : String) : Bool := s == "" || nullWords.contains s

/-- The truth value that a scalar stands for. -/
def boolWord? (s : String) : Option Bool :=
  if ["true", "True", "TRUE"].contains s then some true
  else if ["false", "False", "FALSE"].contains s then some false
  else none

/-- The value of a digit in bases up to sixteen. -/
def digitIn? (base : Nat) (c : Char) : Option Nat :=
  let n :=
    if c.isDigit then c.toNat - '0'.toNat
    else if 'a' ≤ c && c ≤ 'f' then c.toNat - 'a'.toNat + 10
    else if 'A' ≤ c && c ≤ 'F' then c.toNat - 'A'.toNat + 10
    else base
  if n < base then some n else none

/-- The value of a sequence of digits that is not empty. -/
def natIn? (base : Nat) (ds : Text) : Option Nat :=
  if ds == [] then none
  else ds.foldlM (fun n c => (digitIn? base c).map (n * base + ·)) 0

/-- The value of a sequence of digits, with a mark of its base in front unless the base is ten. -/
def natWord? : Text → Option Nat
  | '0' :: 'x' :: ds => natIn? 16 ds
  | '0' :: 'o' :: ds => natIn? 8 ds
  | '0' :: 'b' :: ds => natIn? 2 ds
  | ds => natIn? 10 ds

/-- Whether a text is a sequence of at least two digits that starts with a zero. -/
def isPadded (cs : Text) : Bool :=
  let (_, ds) := Decimal.takeSign cs
  ds.length > 1 && ds.head? == some '0' && ds.all Char.isDigit

/-- The integer that a scalar stands for. -/
def intWord? (cs : Text) : Option Int :=
  if isPadded cs then none
  else
    let (negative, ds) := Decimal.takeSign cs
    (natWord? ds).map fun n => if negative then -(n : Int) else n

/-- The floating-point number that a scalar stands for. -/
def floatWord? (s : String) : Option Float :=
  if [".inf", ".Inf", ".INF", "+.inf", "+.Inf", "+.INF"].contains s then some (1 / 0)
  else if ["-.inf", "-.Inf", "-.INF"].contains s then some (-1 / 0)
  else if [".nan", ".NaN", ".NAN"].contains s then some (0 / 0)
  else if isPadded s.toList then none
  else
    match Decimal.read? s.toList with
    | some x => if x.isInf then none else some x
    | none => none

/-- What a scalar without quotes stands for. -/
def ofPlain (s : String) : Document :=
  if isNullWord s then .null
  else
    match boolWord? s, intWord? s.toList, floatWord? s with
    | some b, _, _ => .bool b
    | none, some n, _ => .int n
    | none, none, some x => .float x
    | none, none, none => .string s

mutual

/-- Replaces scalars without quotes by what they stand for. -/
def settle : Document → Document
  | .plain s => ofPlain s
  | .array ds => .array (settleItems ds)
  | .object fs => .object (settleFields fs)
  | .mapping es => .mapping (settleEntries es)
  | .null => .null
  | .bool b => .bool b
  | .int n => .int n
  | .float x => .float x
  | .string s => .string s

/-- Settles the items of an array. -/
def settleItems : List Document → List Document
  | [] => []
  | d :: ds => settle d :: settleItems ds

/-- Settles the values of an object. -/
def settleFields : List (String × Document) → List (String × Document)
  | [] => []
  | (key, d) :: fs => (key, settle d) :: settleFields fs

/-- Settles the keys and values of a mapping. -/
def settleEntries : List (Document × Document) → List (Document × Document)
  | [] => []
  | (key, d) :: es => (settle key, settle d) :: settleEntries es

end

end DesignLint.Document
