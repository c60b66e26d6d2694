import Formulary.Formula.Meaning

/-!
# What evaluation settles on

Evaluation of a text settles on a value if it comes to this value as long as there are more levels
than the text has bytes, or to a division by zero if there is no value. A text settles on what its
parts settle on, put together as its shape says.
-/

namespace Formulary.Formula

open Text

/-! ## Outcomes -/

/-- An outcome is this value, or a division by zero if there is none. -/
def Agrees (outcome : Except Fault Float) : Option Float → Prop
  | some value => outcome = .ok value
  | none => ∃ quotient, outcome = .error (.divisionByZero quotient)

/-- With more levels than the text has bytes, evaluation comes to this value. -/
def Settles (policy : SplitPolicy) (text : List Char) (value : Option Float) : Prop :=
  ∀ limit levels, byteLength text < levels → Agrees (evaluateWithin policy limit levels text) value

variable {policy : SplitPolicy} {text inner left right : List Char} {value : Option Float}

/-- The text itself costs one level, and its parts have the others. -/
theorem settles_of_parts
    (parts : ∀ limit levels, byteLength text ≤ levels →
      Agrees (evaluateShape policy (evaluateWithin policy limit levels) text) value) :
    Settles policy text value := by
  intro limit levels enough
  cases levels with
  | zero => exact absurd enough (Nat.not_lt_zero _)
  | succ levels => exact parts limit levels (Nat.le_of_lt_succ enough)

theorem settles_of_number {number : Float} (shape_eq : shape? policy text = some (.number number)) :
    Settles policy text (some number) := by
  apply settles_of_parts
  intro limit levels enough
  rw [evaluateShape, shape_eq]
  rfl

theorem settles_of_wrapped (shape_eq : shape? policy text = some (.wrapped inner))
    (shorter : byteLength inner < byteLength text) (part : Settles policy inner value) :
    Settles policy text value := by
  apply settles_of_parts
  intro limit levels enough
  rw [evaluateShape, shape_eq]
  exact part limit levels (by omega)

theorem settles_of_signed {negative : Bool}
    (shape_eq : shape? policy text = some (.signed negative inner))
    (shorter : byteLength inner < byteLength text) (part : Settles policy inner value) :
    Settles policy text (value.map (signed (some negative))) := by
  apply settles_of_parts
  intro limit levels enough
  have evaluated := part limit levels (by omega)
  rw [evaluateShape, shape_eq]
  cases value with
  | some number =>
    simp only [Agrees] at evaluated
    simp only [evaluated]
    cases negative <;> rfl
  | none =>
    rcases evaluated with ⟨quotient, evaluated⟩
    simp only [evaluated]
    exact ⟨quotient, rfl⟩

theorem settles_of_power {base exponent : Float}
    (shape_eq : shape? policy text = some (.power left right))
    (leftShorter : byteLength left < byteLength text)
    (rightShorter : byteLength right < byteLength text)
    (leftPart : Settles policy left (some base))
    (rightPart : Settles policy right (some exponent)) :
    Settles policy text (some (base.pow exponent)) := by
  apply settles_of_parts
  intro limit levels enough
  have leftEvaluated : evaluateWithin policy limit levels left = .ok base :=
    leftPart limit levels (by omega)
  have rightEvaluated : evaluateWithin policy limit levels right = .ok exponent :=
    rightPart limit levels (by omega)
  rw [evaluateShape, shape_eq]
  simp only [leftEvaluated, rightEvaluated]
  rfl

theorem settles_of_logarithm {argument base : Float}
    (shape_eq : shape? policy text = some (.logarithm left right))
    (leftShorter : byteLength left < byteLength text)
    (rightShorter : byteLength right < byteLength text)
    (leftPart : Settles policy left (some argument))
    (rightPart : Settles policy right (some base)) :
    Settles policy text (some (logarithm argument base)) := by
  apply settles_of_parts
  intro limit levels enough
  have leftEvaluated : evaluateWithin policy limit levels left = .ok argument :=
    leftPart limit levels (by omega)
  have rightEvaluated : evaluateWithin policy limit levels right = .ok base :=
    rightPart limit levels (by omega)
  rw [evaluateShape, shape_eq]
  simp only [leftEvaluated, rightEvaluated]
  rfl

/-- Applying an operator agrees with combining the values. -/
theorem agrees_apply (operator : Operator) (text : List Char) (leftValue rightValue : Float) :
    Agrees (operator.apply text leftValue rightValue)
      (operator.combine (some leftValue) (some rightValue)) := by
  cases operator with
  | add => rfl
  | subtract => rfl
  | multiply => rfl
  | divide =>
    simp only [Operator.apply, Operator.combine]
    split
    · exact ⟨text, rfl⟩
    · rfl

theorem settles_of_binary {operator : Operator} {leftValue rightValue : Option Float}
    (shape_eq : shape? policy text = some (.binary operator left right))
    (leftShorter : byteLength left < byteLength text)
    (rightShorter : byteLength right < byteLength text)
    (leftPart : Settles policy left leftValue) (rightPart : Settles policy right rightValue) :
    Settles policy text (operator.combine leftValue rightValue) := by
  apply settles_of_parts
  intro limit levels enough
  have leftEvaluated := leftPart limit levels (by omega)
  have rightEvaluated := rightPart limit levels (by omega)
  rw [evaluateShape, shape_eq]
  cases leftValue with
  | none =>
    rcases leftEvaluated with ⟨quotient, leftEvaluated⟩
    simp only [leftEvaluated]
    exact ⟨quotient, rfl⟩
  | some leftValue =>
    simp only [Agrees] at leftEvaluated
    cases rightValue with
    | none =>
      rcases rightEvaluated with ⟨quotient, rightEvaluated⟩
      simp only [leftEvaluated, rightEvaluated]
      exact ⟨quotient, rfl⟩
    | some rightValue =>
      simp only [Agrees] at rightEvaluated
      simp only [leftEvaluated, rightEvaluated]
      exact agrees_apply operator text leftValue rightValue

end Formulary.Formula
