import Formulary.Formula.Evaluation
import Formulary.Formula.Grammar

/-!
# What formulas mean

The value of a tree under each policy, said on the tree and without its text. There is no value where
a divisor is zero. The two policies differ in nothing but the way in which a row of values with
operators between them is put together.
-/

namespace Formulary.Formula

/-- Values with the operators before them. -/
abbrev Operands (α : Type) : Type :=
  List (Operator × α)

/-- The value of an operator between two values, unless one is missing or the divisor is zero. -/
def Operator.combine (operator : Operator) (left right : Option Float) : Option Float :=
  match left, right with
  | some left, some right =>
    match operator with
    | .add => some (left + right)
    | .subtract => some (left - right)
    | .multiply => some (left * right)
    | .divide => if right == 0 then none else some (left / right)
  | _, _ => none

/-- A row cut at all operators of some kind: the part before the first of them, and the others with
the operator before each. -/
def cutRow {α : Type} (here : Operator → Bool) (first : α) :
    Operands α → (α × Operands α) × Operands (α × Operands α)
  | [] => ((first, []), [])
  | (operator, next) :: rest =>
    let (part, parts) := cutRow here next rest
    if here operator then ((first, []), (operator, part) :: parts)
    else ((first, (operator, part.1) :: part.2), parts)

/-- Values put together from the right: `v1 (v2 (v3 …))`. -/
def fromRight (first : Option Float) : Operands (Option Float) → Option Float
  | [] => first
  | (operator, next) :: rest => operator.combine first (fromRight next rest)

/-- Values put together from the left: `((v1 v2) v3) …`. -/
def fromLeft (first : Option Float) : Operands (Option Float) → Option Float
  | [] => first
  | (operator, next) :: rest => fromLeft (operator.combine first next) rest

/-- The legacy value of a row: it is cut at all `+`, then every part at all `-`, then at all `*`, then
at all `/`, and each time the values of the parts are put together from the right. -/
def legacyRow : (cuts : List Operator) → Option Float → Operands (Option Float) → Option Float
  | [], first, _ => first
  | operator :: cuts, first, rest =>
    let (part, parts) := cutRow (· == operator) first rest
    fromRight (legacyRow cuts part.1 part.2)
      (parts.map fun (operator, part) => (operator, legacyRow cuts part.1 part.2))

/-- The conventional value of a row: products and quotients are put together from the left, and then
sums and differences of them. -/
def conventionalRow (first : Option Float) (rest : Operands (Option Float)) : Option Float :=
  let (part, parts) := cutRow (fun operator => operator == .add || operator == .subtract) first rest
  fromLeft (fromLeft part.1 part.2)
    (parts.map fun (operator, part) => (operator, fromLeft part.1 part.2))

/-- The value of a row under a policy. -/
def rowMeaning (policy : SplitPolicy) (first : Option Float) (rest : Operands (Option Float)) :
    Option Float :=
  match policy with
  | .legacy => legacyRow [.add, .subtract, .multiply, .divide] first rest
  | .leftAssociative => conventionalRow first rest

/-- A value with a sign before it. -/
def signed (sign : Option Bool) (value : Float) : Float :=
  if sign = some true then -value else value

/-- The value that a number is written for. -/
def Numeral.value (numeral : Numeral) : Float :=
  (Number.Decimal.ofDigits ((numeral.first :: numeral.others).map digitChar)
    (numeral.fraction.map digitChar) 0).toFloat false

/-- The identity that the digits of a marker spell. -/
def idOfDigits (first : Fin 10) (others : List (Fin 10)) : Int :=
  Text.digitsValue ((first :: others).map digitChar)

/-- A value with a zero of either sign read as zero. -/
def withoutZeroSign (value : Float) : Float :=
  if value == 0 then 0 else value

mutual

/-- The value of a term with a sign before it. The sign of a power belongs to its base. -/
def Term.meaning (policy : SplitPolicy) (values : Int → Float) (sign : Option Bool) :
    Term → Option Float
  | .number numeral => some (signed sign numeral.value)
  | .power base exponent => some ((signed sign base.value).pow exponent.value)
  | .logarithm argument base =>
    some (signed sign (Formula.logarithm argument.value base.value))
  | .marker first others =>
    some (signed sign (withoutZeroSign (values (idOfDigits first others))))
  | .group inner first rest =>
    (rowMeaning policy (first.meaning policy values inner) (restMeaning policy values rest)).map
      (signed sign)

/-- The values of terms, with the operators before them. -/
def restMeaning (policy : SplitPolicy) (values : Int → Float) :
    List (Operator × Term) → Operands (Option Float)
  | [] => []
  | (operator, term) :: rest =>
    (operator, term.meaning policy values none) :: restMeaning policy values rest

end

/-- The value of a chain. -/
def Chain.meaning (policy : SplitPolicy) (values : Int → Float) (chain : Chain) : Option Float :=
  rowMeaning policy (chain.first.meaning policy values chain.sign)
    (restMeaning policy values chain.rest)

end Formulary.Formula
