import Formulary.Number.Decimal

/-!
# Doubles and exact values

A finite double is a whole number of at most 53 bits times a power of two. This file opens a double
into these parts, writes its exact value as a decimal, and rounds an exact value to the nearest
double, a value half-way between two doubles going to the one whose whole number is even.

The doubles from zero to infinity are numbered by their bit patterns, in order. So rounding finds
the bit pattern as a natural number, and everything above the largest finite double becomes the
pattern of infinity.
-/

namespace Formulary.Number

/-- What a double stands for. -/
inductive Parts where
  /-- No number. -/
  | nan
  /-- One of the two infinities. -/
  | infinite (negative : Bool)
  /-- The value `significand * 2 ^ exponent`, with its sign. -/
  | finite (negative : Bool) (significand : Nat) (exponent : Int)
  deriving DecidableEq

/-- The bit pattern of positive infinity. -/
def infinityBits : Nat :=
  0x7FF0000000000000

/-- The bit pattern that carries only the sign. -/
def signBit : Nat :=
  0x8000000000000000

/-- The leading one of a significand, which is not among its 52 bits. -/
def leadingOne : Nat :=
  0x10000000000000

/-- The parts of a double, read off its bits: a sign, eleven bits of exponent, and 52 bits of
significand, to which every exponent but the lowest adds a leading one. -/
def Parts.ofFloat (x : Float) : Parts :=
  let bits := x.toBits.toNat
  let negative := signBit ≤ bits
  let magnitude := bits % signBit
  let power : Nat := magnitude / leadingOne
  let significand : Nat := magnitude % leadingOne
  if infinityBits < magnitude then .nan
  else if magnitude = infinityBits then .infinite negative
  else if power = 0 then .finite negative significand (-1074)
  else .finite negative (leadingOne + significand) ((power : Int) - 1075)

/-- The exact value of `significand * 2 ^ exponent` as a decimal. -/
def exactDecimal (significand : Nat) (exponent : Int) : Decimal :=
  if 0 ≤ exponent then
    ⟨significand * Nat.pow 2 exponent.toNat, 0⟩
  else
    ⟨significand * Nat.pow 5 (-exponent).toNat, exponent⟩

/-- The quotient rounded to the nearest whole number, a half going to the even neighbour. -/
def roundHalfEven (numerator denominator : Nat) : Nat :=
  let quotient := numerator / denominator
  let twice := 2 * (numerator % denominator)
  if twice < denominator then quotient
  else if denominator < twice then quotient + 1
  else quotient + quotient % 2

/-- Numerator and denominator of `numerator / denominator` divided by `2 ^ exponent`. -/
def scaleByPower (numerator denominator : Nat) (exponent : Int) : Nat × Nat :=
  if 0 ≤ exponent then
    (numerator, denominator * Nat.pow 2 exponent.toNat)
  else
    (numerator * Nat.pow 2 (-exponent).toNat, denominator)

/-- The exponent at which the quotient of two positive numbers has 53 bits before the point, or the
lowest exponent of a double if that is higher. -/
def unitExponent (numerator denominator : Nat) : Int :=
  let estimate : Int := (Nat.log2 numerator : Int) - Nat.log2 denominator - 52
  let (scaled, divisor) := scaleByPower numerator denominator estimate
  max (if scaled / divisor < leadingOne then estimate - 1 else estimate) (-1074)

/-- The bit pattern of the double nearest to the quotient, for a positive denominator. -/
def nearestBits (numerator denominator : Nat) : Nat :=
  if numerator = 0 then 0
  else
    let exponent := unitExponent numerator denominator
    let (scaled, divisor) := scaleByPower numerator denominator exponent
    min ((exponent + 1074).toNat * leadingOne + roundHalfEven scaled divisor) infinityBits

/-- The bit pattern of the double nearest to a decimal. Decimals above `10 ^ 400` and below
`10 ^ (-400)` are far outside the doubles and are told from their size alone. -/
def Decimal.nearestBits (decimal : Decimal) : Nat :=
  let trimmed := decimal.trim
  if trimmed.coefficient = 0 then 0
  else if 400 < trimmed.exponent then infinityBits
  else if trimmed.exponent < -(400 + (Nat.log2 trimmed.coefficient : Int)) then 0
  else if 0 ≤ trimmed.exponent then
    Number.nearestBits (trimmed.coefficient * Nat.pow 10 trimmed.exponent.toNat) 1
  else
    Number.nearestBits trimmed.coefficient (Nat.pow 10 (-trimmed.exponent).toNat)

/-- The double with this sign and this bit pattern for its size. -/
def ofMagnitude (negative : Bool) (bits : Nat) : Float :=
  Float.ofBits (UInt64.ofNat (if negative then signBit + bits else bits))

/-- The infinity with this sign. -/
def infinity (negative : Bool) : Float :=
  ofMagnitude negative infinityBits

/-- The double that is no number. -/
def nan : Float :=
  ofMagnitude false (infinityBits + 1)

/-- The double nearest to a decimal with a sign. -/
def Decimal.toFloat (decimal : Decimal) (negative : Bool) : Float :=
  ofMagnitude negative decimal.nearestBits

end Formulary.Number
