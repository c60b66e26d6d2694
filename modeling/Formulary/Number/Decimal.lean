import Formulary.Text.Character

/-!
# Decimals

A decimal is a whole number times a power of ten. Zeros at the end of the whole number can be moved
into the exponent without changing the value; `trim` does so, and gives every value one form.
-/

namespace Formulary.Number

/-- The value `coefficient * 10 ^ exponent`. -/
structure Decimal where
  coefficient : Nat
  exponent : Int
  deriving DecidableEq, Repr

namespace Decimal

/-- The digits of the coefficient, most significant first; zero has the one digit `0`. -/
def digits (decimal : Decimal) : List Char :=
  Nat.toDigits 10 decimal.coefficient

/-- The same value with no zero at the end of the coefficient; zero itself gets the exponent zero. -/
def trim (decimal : Decimal) : Decimal :=
  if decimal.coefficient = 0 then
    ⟨0, 0⟩
  else if decimal.coefficient % 10 = 0 then
    trim ⟨decimal.coefficient / 10, decimal.exponent + 1⟩
  else
    decimal
termination_by decimal.coefficient
decreasing_by omega

/-- The decimal that a run of digits spells, with a point after the first `whole` of them. -/
def ofDigits (whole fraction : List Char) (exponent : Int) : Decimal :=
  ⟨Text.digitsValue (whole ++ fraction), exponent - fraction.length⟩

end Decimal

end Formulary.Number
