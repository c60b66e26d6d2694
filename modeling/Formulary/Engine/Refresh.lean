import Formulary.Engine.Failure
import Formulary.Formula.Substitution
import Formulary.Settings

/-!
# Fresh values

A formula is evaluated against the values of the calculations it refers to. These are read together
with everything they need: whatever is stale on the way is evaluated anew and filed, the calculations
it refers to first. The chain of calculations being evaluated may neither close nor become longer
than the limit.
-/

namespace Formulary

/-! ## Evaluation against given values -/

/-- The value of a formula and the identities it refers to. -/
structure Evaluated where
  result : Float
  dependencies : IdSet

/-- The value filed under an identity; there has to be one. -/
def givenValue (values : Table Float) (id : Int) : Except Failure Float :=
  match values.find? id with
  | some value => .ok value
  | none => .error (.notFound id)

/-- The value of a formula with these values for its markers. The formula must not refer to `self`. -/
def recompute (evaluator : Formula.Evaluator) (text : List Char) (self : Option Int)
    (values : Table Float) : Except Failure Evaluated := do
  let fetch : Int → Action Unit Failure Float := fun id => .ofExcept (givenValue values id)
  let resolved ← (Formula.resolve .formula text self fetch ()).1
  let result ← (evaluator.evaluate resolved.text).mapError .formula
  return ⟨result, resolved.dependencies⟩

namespace Engine

/-! ## Evaluation of what is filed -/

variable {σ : Type} [Store σ]

/-- The entry under an identity, which has to exist. -/
def existing (id : Int) : Action σ Failure Entry := do
  let found ← Action.mapError .store (Store.fetchRow id)
  match found with
  | some entry => return entry
  | none => .fail (.notFound id)

/-- The value of a formula whose references are read by `read`, in ascending order. -/
def evaluateWith (evaluator : Formula.Evaluator) (read : Int → Action σ Failure Calculation)
    (formula : List Char) (self : Option Int) : Action σ Failure Evaluated := do
  let ids ← Action.ofExcept ((Formula.dependencies formula self).mapError .formula)
  let values ← Formula.fetchAll (fun id => do return (← read id).result) ids.toList
  .ofExcept (recompute evaluator formula self (Table.ofList values))

/-- Reads a calculation, evaluating it by `refresh` if it is stale. -/
def readWith (refresh : Int → Entry → Action σ Failure Calculation) (id : Int) :
    Action σ Failure Calculation := do
  let entry ← existing id
  if entry.stale then refresh id entry else return entry.withId id

/-- Evaluates an entry anew and files its value. `chain` holds the identities being evaluated, and
`levels` says how many more may be. -/
def refreshWithin (settings : EngineSettings) :
    (levels : Nat) → (chain : List Int) → (id : Int) → (entry : Entry) →
      Action σ Failure Calculation
  | levels, chain, id, entry =>
    if id ∈ chain then
      .fail (.links (.cycle id))
    else
      match levels with
      | 0 => .fail (.tooDeep settings.maxDepth)
      | levels + 1 => do
        let read := readWith (refreshWithin settings levels (id :: chain))
        let evaluated ← evaluateWith settings.evaluator read entry.formula (some id)
        let fresh := { entry with result := evaluated.result, stale := false }.withId id
        Action.mapError .store (Store.replace fresh)
        return fresh

/-- Evaluates an entry anew, whether or not it is stale, and files its value. -/
def refresh (settings : EngineSettings) (id : Int) (entry : Entry) : Action σ Failure Calculation :=
  refreshWithin settings settings.maxDepth [] id entry

/-- The value of a formula that is not filed, or not yet under this identity. -/
def evaluate (settings : EngineSettings) (formula : List Char) (self : Option Int) :
    Action σ Failure Evaluated :=
  evaluateWith settings.evaluator (readWith (refresh settings)) formula self

end Engine

end Formulary
