import DesignLint.Text.Basic

/-!
# Digests

`digest` is the 64-bit XXH3 hash of a sequence of bytes, with seed zero and in sixteen hexadecimal
digits.  Inputs of up to 240 bytes are mixed in one go, by a formula for each class of lengths;
longer ones are accumulated in eight lanes, stripe by stripe.
-/

namespace DesignLint.Digest

/-! ## Constants -/

def prime32A : UInt64 := 0x9E3779B1
def prime32B : UInt64 := 0x85EBCA77
def prime32C : UInt64 := 0xC2B2AE3D
def prime64A : UInt64 := 0x9E3779B185EBCA87
def prime64B : UInt64 := 0xC2B2AE3D27D4EB4F
def prime64C : UInt64 := 0x165667B19E3779F9
def prime64D : UInt64 := 0x85EBCA77C2B2AE63
def prime64E : UInt64 := 0x27D4EB2F165667C5
def primeMixA : UInt64 := 0x165667919E3779F9
def primeMixB : UInt64 := 0x9FB21C651E98DF25

/-- The bytes that inputs are mixed with. -/
def secret : ByteArray := ⟨#[
  0xb8, 0xfe, 0x6c, 0x39, 0x23, 0xa4, 0x4b, 0xbe, 0x7c, 0x01, 0x81, 0x2c, 0xf7, 0x21, 0xad, 0x1c,
  0xde, 0xd4, 0x6d, 0xe9, 0x83, 0x90, 0x97, 0xdb, 0x72, 0x40, 0xa4, 0xa4, 0xb7, 0xb3, 0x67, 0x1f,
  0xcb, 0x79, 0xe6, 0x4e, 0xcc, 0xc0, 0xe5, 0x78, 0x82, 0x5a, 0xd0, 0x7d, 0xcc, 0xff, 0x72, 0x21,
  0xb8, 0x08, 0x46, 0x74, 0xf7, 0x43, 0x24, 0x8e, 0xe0, 0x35, 0x90, 0xe6, 0x81, 0x3a, 0x26, 0x4c,
  0x3c, 0x28, 0x52, 0xbb, 0x91, 0xc3, 0x00, 0xcb, 0x88, 0xd0, 0x65, 0x8b, 0x1b, 0x53, 0x2e, 0xa3,
  0x71, 0x64, 0x48, 0x97, 0xa2, 0x0d, 0xf9, 0x4e, 0x38, 0x19, 0xef, 0x46, 0xa9, 0xde, 0xac, 0xd8,
  0xa8, 0xfa, 0x76, 0x3f, 0xe3, 0x9c, 0x34, 0x3f, 0xf9, 0xdc, 0xbb, 0xc7, 0xc7, 0x0b, 0x4f, 0x1d,
  0x8a, 0x51, 0xe0, 0x4b, 0xcd, 0xb4, 0x59, 0x31, 0xc8, 0x9f, 0x7e, 0xc9, 0xd9, 0x78, 0x73, 0x64,
  0xea, 0xc5, 0xac, 0x83, 0x34, 0xd3, 0xeb, 0xc3, 0xc5, 0x81, 0xa0, 0xff, 0xfa, 0x13, 0x63, 0xeb,
  0x17, 0x0d, 0xdd, 0x51, 0xb7, 0xf0, 0xda, 0x49, 0xd3, 0x16, 0x55, 0x26, 0x29, 0xd4, 0x68, 0x9e,
  0x2b, 0x16, 0xbe, 0x58, 0x7d, 0x47, 0xa1, 0xfc, 0x8f, 0xf8, 0xb8, 0xd1, 0x7a, 0xd0, 0x31, 0xce,
  0x45, 0xcb, 0x3a, 0x8f, 0x95, 0x16, 0x04, 0x28, 0xaf, 0xd7, 0xfb, 0xca, 0xbb, 0x4b, 0x40, 0x7e]⟩

/-! ## Words -/

/-- A byte; zero outside the input. -/
def byteAt (b : ByteArray) (i : Nat) : UInt64 := if h : i < b.size then b[i].toUInt64 else 0

/-- Four bytes, the least significant first. -/
def wordAt (b : ByteArray) (i : Nat) : UInt64 :=
  byteAt b i ||| (byteAt b (i + 1) <<< 8) ||| (byteAt b (i + 2) <<< 16) |||
    (byteAt b (i + 3) <<< 24)

/-- Eight bytes, the least significant first. -/
def longAt (b : ByteArray) (i : Nat) : UInt64 := wordAt b i ||| (wordAt b (i + 4) <<< 32)

/-- The two halves of a product of 128 bits, one laid over the other. -/
def foldedProduct (x y : UInt64) : UInt64 :=
  let p := x.toNat * y.toNat
  UInt64.ofNat p ^^^ UInt64.ofNat (p / Nat.pow 2 64)

/-- Turns a word to the left. -/
def turn (x : UInt64) (n : UInt64) : UInt64 := (x <<< n) ||| (x >>> (64 - n))

/-- A word with its bytes in reverse order. -/
def reverseBytes (x : UInt64) : UInt64 :=
  (List.range 8).foldl (fun y i => (y <<< 8) ||| ((x >>> UInt64.ofNat (8 * i)) &&& 0xFF)) 0

/-! ## Finishing -/

/-- Spreads the bits of a short input. -/
def finishShort (h : UInt64) : UInt64 :=
  let h := (h ^^^ (h >>> 33)) * prime64B
  let h := (h ^^^ (h >>> 29)) * prime64C
  h ^^^ (h >>> 32)

/-- Spreads the bits of an input. -/
def finish (h : UInt64) : UInt64 :=
  let h := (h ^^^ (h >>> 37)) * primeMixA
  h ^^^ (h >>> 32)

/-! ## Classes of lengths -/

/-- Mixes sixteen bytes of the input with sixteen bytes of the secret. -/
def mix (b : ByteArray) (i s : Nat) : UInt64 :=
  foldedProduct (longAt b i ^^^ longAt secret s) (longAt b (i + 8) ^^^ longAt secret (s + 8))

/-- One to three bytes. -/
def upToThree (b : ByteArray) : UInt64 :=
  let n := b.size
  let combined := (byteAt b 0 <<< 16) ||| (byteAt b (n / 2) <<< 24) ||| byteAt b (n - 1) |||
    (UInt64.ofNat n <<< 8)
  finishShort (combined ^^^ (wordAt secret 0 ^^^ wordAt secret 4))

/-- Four to eight bytes. -/
def upToEight (b : ByteArray) : UInt64 :=
  let n := b.size
  let h := wordAt b (n - 4) + (wordAt b 0 <<< 32)
  let h := h ^^^ (longAt secret 8 ^^^ longAt secret 16)
  let h := (h ^^^ turn h 49 ^^^ turn h 24) * primeMixB
  let h := (h ^^^ ((h >>> 35) + UInt64.ofNat n)) * primeMixB
  h ^^^ (h >>> 28)

/-- Nine to sixteen bytes. -/
def upToSixteen (b : ByteArray) : UInt64 :=
  let n := b.size
  let low := longAt b 0 ^^^ (longAt secret 24 ^^^ longAt secret 32)
  let high := longAt b (n - 8) ^^^ (longAt secret 40 ^^^ longAt secret 48)
  finish (UInt64.ofNat n + reverseBytes low + high + foldedProduct low high)

/-- 17 to 128 bytes: pairs of sixteen bytes from both ends. -/
def upTo128 (b : ByteArray) : UInt64 :=
  let n := b.size
  let pairs := (n - 1) / 32 + 1
  let sum := (List.range pairs).foldl
    (fun acc i => acc + mix b (16 * i) (32 * i) + mix b (n - 16 * (i + 1)) (32 * i + 16))
    (UInt64.ofNat n * prime64A)
  finish sum

/-- 129 to 240 bytes. -/
def upTo240 (b : ByteArray) : UInt64 :=
  let n := b.size
  let first := (List.range 8).foldl (fun acc i => acc + mix b (16 * i) (16 * i))
    (UInt64.ofNat n * prime64A)
  let rest := (List.range (n / 16 - 8)).foldl
    (fun acc i => acc + mix b (16 * (i + 8)) (16 * i + 3)) (finish first)
  finish (rest + mix b (n - 16) 119)

/-- Eight lanes. -/
abbrev Lanes := List UInt64

/-- The lanes before the first stripe. -/
def startLanes : Lanes :=
  [prime32C, prime64A, prime64B, prime64C, prime64D, prime32B, prime64E, prime32A]

/-- Takes a stripe of 64 bytes in: each lane gets the product of the halves of its own keyed word,
and the word of its neighbour. -/
def takeStripe (b : ByteArray) (i s : Nat) (lanes : Lanes) : Lanes :=
  lanes.mapIdx fun (k : Nat) (lane : UInt64) =>
    let neighbour := if k % 2 == 0 then k + 1 else k - 1
    let key : UInt64 := longAt b (i + 8 * k) ^^^ longAt secret (s + 8 * k)
    lane + longAt b (i + 8 * neighbour) + (key &&& (0xFFFFFFFF : UInt64)) * (key >>> 32)

/-- Stirs the lanes after a block of sixteen stripes. -/
def stir (lanes : Lanes) : Lanes :=
  lanes.mapIdx fun (k : Nat) (lane : UInt64) =>
    (lane ^^^ (lane >>> 47) ^^^ longAt secret (128 + 8 * k)) * prime32A

/-- Takes `count` stripes from an offset on. -/
def takeStripes (b : ByteArray) (i count : Nat) (lanes : Lanes) : Lanes :=
  (List.range count).foldl (fun ls s => takeStripe b (i + 64 * s) (8 * s) ls) lanes

/-- Sums up the lanes, two at a time. -/
def merge (s : Nat) (acc : UInt64) : Lanes → UInt64
  | x :: y :: lanes =>
    merge (s + 16) (acc + foldedProduct (x ^^^ longAt secret s) (y ^^^ longAt secret (s + 8))) lanes
  | _ => acc

/-- More than 240 bytes. -/
def long (b : ByteArray) : UInt64 :=
  let n := b.size
  let blocks := (n - 1) / 1024
  let lanes := (List.range blocks).foldl (fun ls k => stir (takeStripes b (1024 * k) 16 ls))
    startLanes
  let lanes := takeStripes b (1024 * blocks) ((n - 1 - 1024 * blocks) / 64) lanes
  let lanes := takeStripe b (n - 64) 121 lanes
  finish (merge 11 (UInt64.ofNat n * prime64A) lanes)

/-- The hash of a sequence of bytes. -/
def hash (b : ByteArray) : UInt64 :=
  let n := b.size
  if n == 0 then finishShort (longAt secret 56 ^^^ longAt secret 64)
  else if n ≤ 3 then upToThree b
  else if n ≤ 8 then upToEight b
  else if n ≤ 16 then upToSixteen b
  else if n ≤ 128 then upTo128 b
  else if n ≤ 240 then upTo240 b
  else long b

end DesignLint.Digest

namespace DesignLint

/-- The hash of a sequence of bytes in sixteen hexadecimal digits. -/
def digest (b : ByteArray) : String :=
  let ds := Nat.toDigits 16 (Digest.hash b).toNat
  String.ofList (List.replicate (16 - ds.length) '0' ++ ds)

/-- The digest of a text in UTF-8. -/
def Text.digest (cs : Text) : String := DesignLint.digest (String.ofList cs).toUTF8

end DesignLint
