import Formulary.Proofs.Formula.Parse

/-!
# The limit on nesting

The limit on the levels of an evaluation is only a budget. An evaluation that stays below it has the
outcome that it has under every higher limit, one that does not reports the limit, and a limit as
high as the text is long is never reached.
-/

namespace Formulary.Formula

open Text

variable {policy : SplitPolicy} {text : List Char} {lower higher levels more limit : Nat}

/-! ## More levels -/

/-- An outcome was not cut short by a limit on the levels. -/
def Finished {α : Type} (outcome : Except Fault α) : Prop :=
  ∀ limit, outcome ≠ .error (.tooDeep limit)

/-- An outcome with more levels is the outcome with fewer, unless that was cut short. -/
def Extends {α : Type} (outcome longer : Except Fault α) : Prop :=
  Finished outcome → longer = outcome

theorem Extends.refl {α : Type} (outcome : Except Fault α) : Extends outcome outcome :=
  fun _ => rfl

/-- A sequence is extended if both its steps are. -/
theorem Extends.bind {α β : Type} {outcome longer : Except Fault α}
    {next longerNext : α → Except Fault β} (first : Extends outcome longer)
    (rest : ∀ value, Extends (next value) (longerNext value)) :
    Extends (outcome >>= next) (longer >>= longerNext) := by
  intro finished
  cases outcome with
  | error fault =>
    have stopped : Finished (.error fault : Except Fault α) := by
      rintro limit ⟨⟩
      exact finished limit rfl
    rw [first stopped]
    rfl
  | ok value =>
    rw [first nofun]
    exact rest value finished

/-- More levels for the parts of a text extend the outcome for the text. -/
theorem evaluateShape_extends {part longer : List Char → Except Fault Float}
    (parts : ∀ inner, Extends (part inner) (longer inner)) :
    Extends (evaluateShape policy part text) (evaluateShape policy longer text) := by
  rw [evaluateShape, evaluateShape]
  cases shape? policy text with
  | none => exact .refl _
  | some shape =>
    cases shape with
    | malformed => exact .refl _
    | number value => exact .refl _
    | wrapped inner => exact parts inner
    | binary operator left right =>
      exact (parts left).bind fun _ => (parts right).bind fun _ => .refl _
    | power base exponent =>
      exact (parts base).bind fun _ => (parts exponent).bind fun _ => .refl _
    | signed negative rest => exact (parts rest).bind fun _ => .refl _
    | logarithm argument base =>
      exact (parts argument).bind fun _ => (parts base).bind fun _ => .refl _

theorem evaluateWithin_extends (within : levels ≤ more) :
    Extends (evaluateWithin policy lower levels text) (evaluateWithin policy higher more text) := by
  induction levels generalizing more text with
  | zero => exact fun finished => absurd rfl (finished lower)
  | succ levels inductionHypothesis =>
    cases more with
    | zero => exact absurd within (Nat.not_succ_le_zero levels)
    | succ more =>
      exact evaluateShape_extends fun _ => inductionHypothesis (Nat.le_of_succ_le_succ within)

/-! ## Enough levels -/

/-- What is cut short reports its limit. -/
theorem limit_of_evaluateWithin
    (failed : evaluateWithin policy lower levels text = .error (.tooDeep limit)) :
    limit = lower := by
  induction levels generalizing text with
  | zero =>
    cases failed
    rfl
  | succ levels inductionHypothesis =>
    rw [evaluateWithin] at failed
    rcases evaluateShape_eq_error _ failed with
      (impossible | impossible | ⟨_, impossible⟩) | ⟨_, _, -, -, inner, -, innerFailed⟩
    · cases impossible
    · cases impossible
    · cases impossible
    · exact inductionHypothesis innerFailed

/-- With more levels than the text has bytes nothing is cut short. Every part has fewer bytes and
takes one level. -/
theorem finished_of_byteLength_lt (enough : byteLength text < levels) :
    Finished (evaluateWithin policy lower levels text) := by
  intro limit failed
  induction levels generalizing text with
  | zero => exact Nat.not_lt_zero _ enough
  | succ levels inductionHypothesis =>
    rw [evaluateWithin] at failed
    rcases evaluateShape_eq_error _ failed with
      (impossible | impossible | ⟨_, impossible⟩) |
        ⟨_, _, shape_eq, parts_eq, inner, member, innerFailed⟩
    · cases impossible
    · cases impossible
    · cases impossible
    · have shorter := (composedOf_shape? shape_eq parts_eq).shorter inner member
      exact inductionHypothesis (by omega) innerFailed

/-- An evaluation that is not cut short has the outcome that it has under any higher limit. One that
is cut short reports its own limit, and none is if the limit is at least the length of the text. -/
theorem nesting_is_budget (policy : SplitPolicy) (text : List Char) :
    (∀ lower higher, lower ≤ higher → Finished (Evaluator.evaluate ⟨policy, lower⟩ text) →
        Evaluator.evaluate ⟨policy, higher⟩ text = Evaluator.evaluate ⟨policy, lower⟩ text) ∧
      (∀ nesting limit, Evaluator.evaluate ⟨policy, nesting⟩ text = .error (.tooDeep limit) →
        limit = nesting) ∧
      ∀ nesting, byteLength text ≤ nesting → Finished (Evaluator.evaluate ⟨policy, nesting⟩ text) := by
  refine ⟨?budget, ?reported, ?enough⟩
  case budget =>
    intro lower higher within
    exact evaluateWithin_extends (Nat.succ_le_succ within)
  case reported =>
    intro nesting limit
    exact limit_of_evaluateWithin
  case enough =>
    intro nesting enough
    exact finished_of_byteLength_lt (Nat.lt_succ_of_le enough)

end Formulary.Formula
