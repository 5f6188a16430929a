/-!
# Doubles as bit patterns

Tax amounts are IEEE-754 binary64 numbers. A `Binary64` is its 64 bits, so equality of amounts,
reading a decimal and showing a value are ordinary arithmetic on natural numbers.

Two doubles *agree* (`==`) when they are the same number: the two zeros agree, and a NaN agrees with
nothing. Identity (`=`) is equality of the bits.

## Main results

* `agrees_self_iff`: a double agrees with itself exactly when it is not a NaN.
-/

namespace CatalogSync

/-- An IEEE-754 binary64 number, given by its bits. -/
structure Binary64 where
  /-- Sign, eleven bits of exponent, fifty-two bits of fraction. -/
  bits : UInt64
deriving DecidableEq, Repr

namespace Binary64

/-- A power of two. -/
def twoPow (k : Nat) : Nat := 1 <<< k

/-- A power of ten. -/
def tenPow (k : Nat) : Nat := Nat.pow 10 k

/-- The biased exponent. -/
def exponent (x : Binary64) : Nat := x.bits.toNat / twoPow 52 % twoPow 11

/-- The stored bits of the significand. -/
def fraction (x : Binary64) : Nat := x.bits.toNat % twoPow 52

/-- Whether the bits stand for no number. -/
def isNaN (x : Binary64) : Bool := x.exponent == 2047 && x.fraction != 0

/-- Whether the value is neither an infinity nor a NaN. -/
def isFinite (x : Binary64) : Bool := x.exponent != 2047

/-- Whether the value is one of the two zeros. -/
def isZero (x : Binary64) : Bool := x.bits.toNat % twoPow 63 == 0

/-- Equality of numbers: bits alike or both zero, and neither a NaN. -/
def agrees (x y : Binary64) : Bool :=
  !x.isNaN && !y.isNaN && (decide (x.bits = y.bits) || x.isZero && y.isZero)

instance : BEq Binary64 := ⟨agrees⟩

theorem agrees_self_iff (x : Binary64) : x.agrees x = true ↔ x.isNaN = false := by
  simp [agrees]

/-! ## Reading a decimal -/

/-- The natural number nearest to a quotient; a half goes to the even neighbour. -/
def roundHalfEven (num den : Nat) : Nat :=
  let quotient := num / den
  let twice := 2 * (num % den)
  if twice > den || twice == den && quotient % 2 == 1 then quotient + 1 else quotient

/-- `num / den` times a power of two, as a quotient of natural numbers. -/
def scaled (num den : Nat) (power : Int) : Nat × Nat :=
  if 0 ≤ power then (num * twoPow power.toNat, den) else (num, den * twoPow (-power).toNat)

/-- The exponent of the greatest power of two that is at most `num / den`. -/
def floorLog2 (num den : Nat) : Int :=
  let lead : Int := num.log2 - den.log2
  let (up, down) := scaled num den (-lead)
  if down ≤ up then lead else lead - 1

/--
The exponent and fraction bits of the double nearest to the positive quotient `num / den`.

The significand counts units of `2 ^ unit`, where `unit` leaves 53 bits of it but is never below
the unit of the subnormals. A significand that rounds up to the next power of two carries into the
exponent field by itself.
-/
def nearestMagnitude (num den : Nat) : Nat :=
  let unit := max (-1074) (floorLog2 num den - 52)
  let (up, down) := scaled num den (-unit)
  (unit + 1074).toNat * twoPow 52 + roundHalfEven up down

/--
The double nearest to `± mantissa * 10 ^ exponent`, ties to even; nothing when it is out of range.
Exponents so far out that the answer is plain are settled without computing the power of ten.
-/
def ofDecimal? (negative : Bool) (mantissa : Nat) (exponent : Int) : Option Binary64 :=
  let sign : Nat := if negative then twoPow 63 else 0
  if mantissa = 0 ∨ (mantissa.log2 : Int) + 1 + 3 * exponent < -1076 then
    some ⟨UInt64.ofNat sign⟩
  else if exponent > 400 then none
  else
    let magnitude :=
      if 0 ≤ exponent then nearestMagnitude (mantissa * tenPow exponent.toNat) 1
      else nearestMagnitude mantissa (tenPow (-exponent).toNat)
    if magnitude < 2047 * twoPow 52 then some ⟨UInt64.ofNat (sign + magnitude)⟩ else none

/-- The double nearest to an integer. -/
def ofInt? (value : Int) : Option Binary64 := ofDecimal? (decide (value < 0)) value.natAbs 0

/-- The bits as sixteen lowercase hexadecimal digits. -/
def hex (x : Binary64) : String :=
  let digits := Nat.toDigits 16 x.bits.toNat
  String.ofList (List.replicate (16 - digits.length) '0' ++ digits)

end Binary64

end CatalogSync
