import Formulary.Engine.Refresh
import Formulary.Formula.Canonical

/-!
# Operations of the engine

Creating, reading, changing and deleting calculations. A change files the entry and its links and
marks all dependents stale, all of it or nothing. What was evaluated on the way to a change stays
filed even if the change fails.
-/

namespace Formulary.Engine

variable {σ : Type} [Store σ]

/-- Records the links of a calculation as a step of the engine. -/
def recordLinks (id : Int) (dependencies : IdSet) : Action σ Failure Unit :=
  Action.mapError .links (Links.record id dependencies)

/-- Marks all dependents of a calculation stale as a step of the engine. -/
def cascade (id : Int) : Action σ Failure (List Int) :=
  Action.mapError .links (Links.cascade id)

/-- Files the formula that a text spells as a new calculation. -/
def create (settings : EngineSettings) (raw : List Char) : Action σ Failure Calculation := do
  let formula ← Action.ofExcept ((Formula.canonical raw).mapError .formula)
  let evaluated ← evaluate settings formula none
  let entry : Entry := { formula, result := evaluated.result, stale := false }
  let id ← Action.atomically do
    let id ← Action.mapError .store (Store.save entry)
    recordLinks id evaluated.dependencies
    return id
  return entry.withId id

/-- The calculation with its value, which is evaluated first if it is stale. -/
def read (settings : EngineSettings) (id : Int) : Action σ Failure Calculation :=
  readWith (refresh settings) id

/-- Gives a calculation the formula that a text spells, and marks its dependents stale. -/
def update (settings : EngineSettings) (id : Int) (raw : List Char) :
    Action σ Failure Calculation := do
  let formula ← Action.ofExcept ((Formula.canonical raw).mapError .formula)
  let _ ← existing id
  let evaluated ← evaluate settings formula (some id)
  Action.mapError .links (.inspect (Links.ensureAcyclic id evaluated.dependencies))
  let calculation := Entry.withId { formula, result := evaluated.result, stale := false } id
  Action.atomically do
    Action.mapError .store (Store.replace calculation)
    recordLinks id evaluated.dependencies
    let _ ← cascade id
    return ()
  return calculation

/-- Takes a calculation and its links away, and marks its dependents stale. -/
def delete (id : Int) : Action σ Failure Unit := do
  let _ ← existing id
  Action.atomically do
    Action.mapError .store (Store.unlink id)
    Action.mapError .store (Store.remove id)
    let _ ← cascade id
    return ()

/-- Evaluates a calculation anew, even if it is fresh. If the value differs in any bit from the one
that the store gives back, its dependents are marked stale. The sign of a zero counts; the bits of a
value that is no number would count too, but all such values are one here. -/
def recalculate (settings : EngineSettings) (id : Int) : Action σ Failure Calculation := do
  let entry ← existing id
  let refreshed ← refresh settings id entry
  if refreshed.result.toBits ≠ entry.result.toBits then
    let _ ← cascade id
  return refreshed

end Formulary.Engine
