import Formulary.Number.Layout
import Formulary.Number.Reader

/-!
# JSON numbers

A JSON number is a sign, if any, a whole part without needless zeros, digits after a point, if any,
and an exponent, if any. As a whole number it is exact. As a double it is read in two steps: the
digits are gathered into a whole number below `2 ^ 64`, further digits only counting for their
place, and that number is scaled by a power of ten. Each step rounds once, so long decimals may be
read as a neighbour of the nearest double. Numbers beyond the doubles are refused.
-/

namespace Formulary.Json

/-- The parts of a written number. -/
structure Numeral where
  negative : Bool
  whole : List Char
  /-- The digits after the point; empty if there is no point. -/
  fraction : List Char
  /-- The exponent, if one is written. -/
  exponent : Option Int
  deriving DecidableEq

/-- The exponent written after the digits of a number. -/
def readExponent? : List Char → Option (Option Int)
  | [] => some none
  | written => (Number.readExponent? written).map some

/-- The parts of a number, or `none` if the text is no JSON number. -/
def Numeral.ofText? (text : List Char) : Option Numeral := do
  let (negative, unsigned) := match text with
    | '-' :: rest => (true, rest)
    | _ => (false, text)
  let whole := unsigned.takeWhile Text.isAsciiDigit
  let rest := unsigned.dropWhile Text.isAsciiDigit
  guard (whole = ['0'] ∨ (whole ≠ [] ∧ whole.head? ≠ some '0'))
  match rest with
  | '.' :: afterPoint =>
    let fraction := afterPoint.takeWhile Text.isAsciiDigit
    guard (fraction ≠ [])
    let exponent ← readExponent? (afterPoint.dropWhile Text.isAsciiDigit)
    return ⟨negative, whole, fraction, exponent⟩
  | _ =>
    let exponent ← readExponent? rest
    return ⟨negative, whole, [], exponent⟩

/-- Whole numbers below `2 ^ 64` fit into a word. -/
def wordLimit : Nat :=
  0x10000000000000000

/-- Negative numbers down to `-2 ^ 63` fit into a signed word. -/
def signedLimit : Nat :=
  0x8000000000000000

/-- The whole number that is written without point and exponent: from zero to the largest word of
64 bits, or negative and not below the smallest signed one. A negative zero is not whole. -/
def Numeral.toInt? (numeral : Numeral) : Option Int :=
  if numeral.fraction = [] ∧ numeral.exponent = none then
    let size := Text.digitsValue numeral.whole
    if numeral.negative then
      if 0 < size ∧ size ≤ signedLimit then some (-size) else none
    else if size < wordLimit then some size
    else none
  else
    none

/-- The digits gathered into a whole number below `2 ^ 64`, and the digits left over. -/
def gather (value : Nat) : List Char → Nat × List Char
  | [] => (value, [])
  | c :: rest =>
    let next := 10 * value + Text.digitValue c
    if next < wordLimit then gather next rest else (value, c :: rest)

/-- The double nearest to a power of ten. -/
def powerOfTen (exponent : Nat) : Float :=
  (Number.Decimal.mk 1 exponent).toFloat false

/-- A number scaled by a power of ten. A result beyond the doubles is refused. Powers below
`10 ^ (-308)` are divided by in two steps, and below `10 ^ (-616)` nothing is left. -/
def scale? (value : Float) (exponent : Int) : Option Float :=
  if value == 0 then some value
  else if 308 < exponent then none
  else if 0 ≤ exponent then
    let scaled := value * powerOfTen exponent.toNat
    if scaled.isInf then none else some scaled
  else if -308 ≤ exponent then some (value / powerOfTen (-exponent).toNat)
  else if -616 ≤ exponent then some (value / powerOfTen 308 / powerOfTen (-exponent - 308).toNat)
  else some 0

/-- The double that a number is read as, if it lies within the doubles. -/
def Numeral.toFloat? (numeral : Numeral) : Option Float := do
  let (wholeValue, wholeRest) := gather 0 numeral.whole
  let (value, fractionRest) := gather wholeValue numeral.fraction
  let places : Int := numeral.fraction.length - fractionRest.length
  let exponent := wholeRest.length - places + numeral.exponent.getD 0
  let size ← scale? ((Number.Decimal.mk value 0).toFloat false) exponent
  return if numeral.negative then -size else size

/-! ## Writing -/

/-- JSON numbers have an exponent unless their first digit stands between the fifth decimal place
and the sixteenth digit before the point; otherwise they have at least one decimal place. A half
goes to the even digit. -/
def numeralLayout : Number.Layout :=
  ⟨.even, some (-5, 15), 1⟩

/-- The text of a finite double as a JSON number. -/
def floatText? (x : Float) : Option (List Char) :=
  match Number.Parts.ofFloat x with
  | .finite negative significand exponent =>
    some (numeralLayout.finiteText negative significand exponent)
  | _ => none

example : floatText? 7 = some "7.0".toList ∧ floatText? 0.00001 = some "0.00001".toList := by
  decide +kernel

example : floatText? 1e16 = some "1e+16".toList ∧ floatText? 0.000001 = some "1e-6".toList := by
  decide +kernel

/-- A quarter that has to be written with one place goes to the even digit. -/
example : floatText? 1000000000000000.25 = some "1000000000000000.2".toList := by decide +kernel

/-- The text of a whole number. -/
def intText (value : Int) : List Char :=
  if value < 0 then '-' :: Nat.toDigits 10 value.natAbs else Nat.toDigits 10 value.natAbs

end Formulary.Json
