import Formulary.Engine.Refresh
import Formulary.Store.Memory

/-!
# Evaluation from scratch

The outcome that evaluating a calculation has if nothing that is filed is believed: neither values nor
the marks that say whether they are fresh. The calculations that a formula refers to are evaluated
from scratch in ascending order, and the first error among them is the outcome. Where formulas refer
to each other in a circle there is no outcome.
-/

namespace Formulary.Engine

mutual

/-- Evaluating the calculation with this identity from scratch has this outcome. -/
inductive FromScratch (evaluator : Formula.Evaluator) (memory : Memory) :
    Int → Except Failure Float → Prop where
  | missing {id : Int} :
      memory.table.find? id = none → FromScratch evaluator memory id (.error (.notFound id))
  | unsound {id : Int} {entry : Entry} {fault : Formula.Fault} :
      memory.table.find? id = some entry →
        Formula.dependencies entry.formula (some id) = .error fault →
          FromScratch evaluator memory id (.error (.formula fault))
  | unread {id : Int} {entry : Entry} {ids : IdSet} {failure : Failure} :
      memory.table.find? id = some entry →
        Formula.dependencies entry.formula (some id) = .ok ids →
          AllFromScratch evaluator memory ids.toList (.error failure) →
            FromScratch evaluator memory id (.error failure)
  | evaluated {id : Int} {entry : Entry} {ids : IdSet} {values : List (Int × Float)} :
      memory.table.find? id = some entry →
        Formula.dependencies entry.formula (some id) = .ok ids →
          AllFromScratch evaluator memory ids.toList (.ok values) →
            FromScratch evaluator memory id
              ((recompute evaluator entry.formula (some id) (Table.ofList values)).map (·.result))

/-- Evaluating several calculations from scratch, one after the other, gives these values or this
failure. -/
inductive AllFromScratch (evaluator : Formula.Evaluator) (memory : Memory) :
    List Int → Except Failure (List (Int × Float)) → Prop where
  | done : AllFromScratch evaluator memory [] (.ok [])
  | failed {id : Int} {rest : List Int} {failure : Failure} :
      FromScratch evaluator memory id (.error failure) →
        AllFromScratch evaluator memory (id :: rest) (.error failure)
  | later {id : Int} {rest : List Int} {value : Float} {failure : Failure} :
      FromScratch evaluator memory id (.ok value) →
        AllFromScratch evaluator memory rest (.error failure) →
          AllFromScratch evaluator memory (id :: rest) (.error failure)
  | read {id : Int} {rest : List Int} {value : Float} {values : List (Int × Float)} :
      FromScratch evaluator memory id (.ok value) →
        AllFromScratch evaluator memory rest (.ok values) →
          AllFromScratch evaluator memory (id :: rest) (.ok ((id, value) :: values))

end

end Formulary.Engine
