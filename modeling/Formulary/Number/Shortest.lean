import Formulary.Number.Binary64

/-!
# The shortest decimal of a double

Among the decimals that read back to a given double, those with the fewest digits are taken, and of
these the one nearest to the double's exact value. Two such decimals can be equally near; which of
them is taken is a choice of the format that is written, a `Tie`.

The search cuts the exact value to one digit, then to two, and so on, and stops at the first cut
of which a neighbour reads back. The exact value itself reads back, so the search ends there at the
latest.
-/

namespace Formulary.Number

/-- Which of two equally near decimals is written. -/
inductive Tie where
  /-- The one whose last digit is even. -/
  | even
  /-- The one farther from zero. -/
  | away
  deriving DecidableEq

/-- The two decimals next to `decimal` on the grid with `places` digits fewer, the nearer first. -/
def Decimal.neighbours (decimal : Decimal) (tie : Tie) (places : Nat) : List Decimal :=
  let unit := Nat.pow 10 places
  let quotient := decimal.coefficient / unit
  let twice := 2 * (decimal.coefficient % unit)
  let below : Decimal := ⟨quotient, decimal.exponent + places⟩
  let above : Decimal := ⟨quotient + 1, decimal.exponent + places⟩
  let upward : Bool :=
    if twice = unit then
      match tie with
      | .even => quotient % 2 == 1
      | .away => true
    else unit < twice
  if upward then [above, below] else [below, above]

/-- The shortest decimal that reads back to the double with this bit pattern, given the double's
exact value. -/
def shortestOf (tie : Tie) (exact : Decimal) (bits : Nat) : Decimal :=
  let length := exact.digits.length
  let found := (List.range (length - 1)).findSome? fun kept =>
    (exact.neighbours tie (length - 1 - kept)).find? fun decimal => decimal.nearestBits == bits
  (found.getD exact).trim

/-- The shortest decimal of a finite double other than zero, given its significand and exponent. -/
def shortest (tie : Tie) (significand : Nat) (exponent : Int) : Decimal :=
  let exact := exactDecimal significand exponent
  shortestOf tie exact exact.nearestBits

end Formulary.Number
