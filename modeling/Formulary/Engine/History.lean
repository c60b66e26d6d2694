import Formulary.Engine.Script
import Formulary.Store.Faulty
import Formulary.Store.Memory

/-!
# States that an engine can reach

The states of a store in memory to which operations of the engine lead, whether they succeed or fail,
from another state and from the empty store. Every operation may have its own settings, and its own
operations of the store may fail during it; two predicates limit what is allowed.
-/

namespace Formulary.Engine

/-- The outcome of an operation, and the store that it leaves, when some operations of the store fail
during it. -/
def Operation.runFailing (operation : Operation) (settings : EngineSettings)
    (failing : List StoreMethod) (memory : Memory) : Except Failure Answer × Memory :=
  let (outcome, after) := operation.run settings (Faulty.mk memory failing)
  (outcome, after.inner)

/-- Operations under settings and with failures that are allowed lead from the first store to the
second. -/
inductive Leads (allowed : EngineSettings → Prop) (mayFail : List StoreMethod → Prop) :
    Memory → Memory → Prop where
  | refl (memory : Memory) : Leads allowed mayFail memory memory
  | tail {start memory : Memory} (before : Leads allowed mayFail start memory)
      (operation : Operation) (settings : EngineSettings) (failing : List StoreMethod) :
      allowed settings → mayFail failing →
        Leads allowed mayFail start (operation.runFailing settings failing memory).2

/-- The stores to which operations lead from the empty one. -/
def Reached (allowed : EngineSettings → Prop) (mayFail : List StoreMethod → Prop)
    (memory : Memory) : Prop :=
  Leads allowed mayFail Memory.empty memory

variable {allowed : EngineSettings → Prop} {mayFail : List StoreMethod → Prop}

/-- What is done first and what is done then lead together from the first store to the last. -/
theorem Leads.trans {start middle finish : Memory} (first : Leads allowed mayFail start middle)
    (second : Leads allowed mayFail middle finish) : Leads allowed mayFail start finish := by
  induction second with
  | refl => exact first
  | tail _ operation settings failing isAllowed isFailing inductionHypothesis =>
    exact .tail inductionHypothesis operation settings failing isAllowed isFailing

/-- Where operations lead from a reached store is reached. -/
theorem Reached.of_leads {memory later : Memory} (reached : Reached allowed mayFail memory)
    (leads : Leads allowed mayFail memory later) : Reached allowed mayFail later :=
  Leads.trans reached leads

end Formulary.Engine
