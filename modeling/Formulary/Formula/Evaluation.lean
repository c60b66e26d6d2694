import Formulary.Formula.Error
import Formulary.Formula.Shape

/-!
# The value of a formula

A text without markers is evaluated by evaluating the parts that `shape?` cuts it into, left parts
before right ones. Every part costs one level, and there is a limit on the levels.
-/

namespace Formulary.Formula

/-- The value of an operator between two values; `text` is the quotient to blame if the divisor is
zero. -/
def Operator.apply (operator : Operator) (text : List Char) (left right : Float) :
    Except Fault Float :=
  match operator with
  | .add => .ok (left + right)
  | .subtract => .ok (left - right)
  | .multiply => .ok (left * right)
  | .divide => if right == 0 then .error (.divisionByZero text) else .ok (left / right)

/-- The logarithm of a value to a base. -/
def logarithm (value base : Float) : Float :=
  value.log / base.log

/-- The value of a text whose parts are evaluated by `part`. -/
def evaluateShape (policy : SplitPolicy) (part : List Char → Except Fault Float)
    (text : List Char) : Except Fault Float :=
  match shape? policy text with
  | none => .error (.uncuttable text)
  | some .malformed => .error (.malformed text)
  | some (.number value) => .ok value
  | some (.wrapped inner) => part inner
  | some (.binary operator left right) => do
    let leftValue ← part left
    let rightValue ← part right
    operator.apply text leftValue rightValue
  | some (.power base exponent) => do
    let baseValue ← part base
    let exponentValue ← part exponent
    return baseValue.pow exponentValue
  | some (.signed negative rest) => do
    let value ← part rest
    return if negative then -value else value
  | some (.logarithm argument base) => do
    let argumentValue ← part argument
    let baseValue ← part base
    return logarithm argumentValue baseValue

/-- The value of a text when this many levels are left of the limit. -/
def evaluateWithin (policy : SplitPolicy) (limit : Nat) : (levels : Nat) → List Char → Except Fault Float
  | 0, _ => .error (.tooDeep limit)
  | levels + 1, text => evaluateShape policy (evaluateWithin policy limit levels) text

/-- How formulas are evaluated: the order of operators, and how deep parts may lie within parts. -/
structure Evaluator where
  policy : SplitPolicy
  nesting : Nat
  deriving DecidableEq

/-- The value of a text without markers. The text itself lies at depth zero. -/
def Evaluator.evaluate (evaluator : Evaluator) (text : List Char) : Except Fault Float :=
  evaluateWithin evaluator.policy evaluator.nesting (evaluator.nesting + 1) text

/-- The evaluator that is used where nothing else is asked for. -/
def Evaluator.standard : Evaluator :=
  ⟨.legacy, 512⟩

end Formulary.Formula
