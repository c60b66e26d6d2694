import Formulary.Number.Shortest

/-!
# Layouts of written numbers

How the shortest decimal of a double is laid out: with all its places, or with one digit before the
point and an exponent. A `Layout` holds the decisions of one format. In formulas as well as in answers
values are written with all their places and never with an exponent, which is `plainText`.
-/

namespace Formulary.Number

/-- The decisions of a number format. -/
structure Layout where
  /-- Which of two equally near decimals is written. -/
  tie : Tie
  /-- The powers of ten of the first digit for which no exponent is written; `none` for all. -/
  positional : Option (Int × Int)
  /-- The least number of decimal places where no exponent is written. -/
  places : Nat

namespace Layout

/-- Whether a number whose first digit stands at this power of ten is written without exponent. -/
def isPositional (layout : Layout) (power : Int) : Bool :=
  match layout.positional with
  | none => true
  | some (lowest, highest) => lowest ≤ power && power ≤ highest

/-- Digits with `point` of them before the decimal point, filled up with zeros on either side. -/
def positionalText (places : Nat) (digits : List Char) (point : Int) : List Char :=
  let before := point.toNat
  let zeros := (-point).toNat
  let whole := if before = 0 then ['0'] else (digits.take before).rightpad before '0'
  let fraction := (List.replicate zeros '0' ++ digits.drop before).rightpad places '0'
  if fraction = [] then whole else whole ++ '.' :: fraction

/-- The first digit, the others after a point, and the signed power of ten of the first digit. -/
def exponentText (digits : List Char) (power : Int) : List Char :=
  let mantissa := match digits with
    | first :: second :: rest => first :: '.' :: second :: rest
    | short => short
  let sign := if power < 0 then '-' else '+'
  mantissa ++ 'e' :: sign :: Nat.toDigits 10 power.natAbs

/-- The text of a decimal without zeros at the end. -/
def decimalText (layout : Layout) (decimal : Decimal) : List Char :=
  let digits := decimal.digits
  let point := digits.length + decimal.exponent
  if layout.isPositional (point - 1) then
    positionalText layout.places digits point
  else
    exponentText digits (point - 1)

/-- The text of a finite double, given its parts. -/
def finiteText (layout : Layout) (negative : Bool) (significand : Nat) (exponent : Int) : List Char :=
  let magnitude := layout.decimalText (shortest layout.tie significand exponent)
  if negative then '-' :: magnitude else magnitude

end Layout

/-! ## Plain texts -/

/-- Plain texts have no exponent and no needless places, and a half goes up, away from zero. -/
def plainLayout : Layout :=
  ⟨.away, none, 0⟩

/-- The plain text of a double. -/
def plainText (x : Float) : List Char :=
  match Parts.ofFloat x with
  | .nan => ['N', 'a', 'N']
  | .infinite negative => if negative then ['-', 'i', 'n', 'f'] else ['i', 'n', 'f']
  | .finite negative significand exponent => plainLayout.finiteText negative significand exponent

example : plainText 0.1 = "0.1".toList ∧ plainText 7 = "7".toList ∧ plainText (-0.0) = "-0".toList := by
  decide +kernel

example : plainText 1e21 = "1000000000000000000000".toList := by decide +kernel

/-- A quarter that has to be written with one place goes up. -/
example : plainText 1000000000000000.25 = "1000000000000000.3".toList := by decide +kernel

end Formulary.Number
