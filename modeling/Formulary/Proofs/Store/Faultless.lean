import Formulary.Engine.History
import Formulary.Proofs.Engine.Simulation

/-!
# A store of which nothing fails

A store that could fail on demand, but of which no operation does, behaves as the store around which
it is. What is proved of reached states, where the store may have failed, can so be said of the
store itself. The main statement is `run_mirrors`.
-/

namespace Formulary

variable {σ ε α γ : Type}

/-- An operation that does not fail does what it does on the inner store. -/
theorem guarded_simulates (view : α → γ) (method : StoreMethod) (key : Int)
    (step : Action σ StoreError α) :
    Simulates (fun outer inner => outer = Faulty.mk inner []) view
      (Faulty.guarded method key step) step := by
  rintro _ inner rfl
  have ran : Faulty.guarded method key step ⟨inner, []⟩ =
      ((step inner).1, ⟨(step inner).2, []⟩) := if_neg List.not_mem_nil
  rw [ran]
  exact ⟨rfl, rfl⟩

theorem guardedLook_faultless (method : StoreMethod) (key : Int) (look : σ → Except StoreError α)
    (state : σ) : Faulty.guardedLook method key look ⟨state, []⟩ = look state :=
  if_neg List.not_mem_nil

/-- A store of which nothing fails does what the store around which it is does. -/
def faultless (σ : Type) [Store σ] : StoreSimulation (Faulty σ) σ where
  related outer inner := outer = ⟨inner, []⟩
  view := id
  withoutZeroSign_view _ := rfl
  save _ := guarded_simulates id _ _ _
  fetch key := .inspect fun _ inner isRelated => by
    rw [isRelated]
    exact congrArg _ (guardedLook_faultless .fetch key (Store.fetch · key) inner)
  replace calculation other same := by
    cases (show calculation = other from same)
    exact guarded_simulates id _ _ _
  remove _ := guarded_simulates id _ _ _
  link _ := guarded_simulates id _ _ _
  unlink _ := guarded_simulates id _ _ _
  dependents isRelated key := by
    rw [isRelated]
    exact guardedLook_faultless .dependents key (Store.dependents · key) _
  rows isRelated := by
    rw [isRelated]
    rfl
  links isRelated := by
    rw [isRelated]
    rfl

namespace Engine

mutual

theorem mapResults_id (answer : Answer) : answer.mapResults id = answer := by
  cases answer with
  | several answers => rw [Answer.mapResults, mapAllResults_id]
  | row found => cases found <;> rfl
  | _ => rfl

theorem mapAllResults_id (answers : List Answer) : mapAllResults id answers = answers := by
  cases answers with
  | nil => rfl
  | cons answer rest => rw [mapAllResults, mapResults_id, mapAllResults_id]

end

/-- An outcome and a store are what they are seen as around that store. -/
theorem mirrored_iff {ran : Except ε α × σ} {outcome : Except ε α} {after : σ} :
    (ran.1, Faulty.mk ran.2 []) = (outcome, ⟨after, []⟩) ↔ ran = (outcome, after) := by
  constructor
  · intro same
    cases same
    rfl
  · intro same
    rw [same]

variable [Store σ]

/-- What ends as on a store that could fail, of which nothing does, ends so on the store itself. -/
theorem mirrors_of_agree {outer : Except ε α × Faulty σ} {inner : Except ε α × σ}
    (agree : Agree (faultless σ).related id outer inner) :
    outer = (inner.1, ⟨inner.2, []⟩) := by
  obtain ⟨same, after⟩ := agree
  rw [Except.map_id] at same
  exact Prod.ext same after

/-- Reading from a store of which nothing fails. -/
theorem read_mirrors (settings : EngineSettings) (key : Int) (state : σ) :
    read settings key (Faulty.mk state []) =
      ((read settings key state).1, ⟨(read settings key state).2, []⟩) := by
  have agree := read_simulates (faultless σ) settings key
    (show (faultless σ).related (Faulty.mk state []) state from rfl)
  rw [show Calculation.mapResult (faultless σ).view = id from rfl] at agree
  exact mirrors_of_agree agree

theorem evaluate_mirrors (settings : EngineSettings) (formula : List Char) (self : Option Int)
    (state : σ) :
    evaluate settings formula self (Faulty.mk state []) =
      ((evaluate settings formula self state).1, ⟨(evaluate settings formula self state).2, []⟩) :=
  mirrors_of_agree (evaluate_simulates (faultless σ) settings formula self rfl)

theorem create_mirrors (settings : EngineSettings) (raw : List Char) (state : σ) :
    create settings raw (Faulty.mk state []) =
      ((create settings raw state).1, ⟨(create settings raw state).2, []⟩) :=
  mirrors_of_agree (create_simulates (faultless σ) settings raw rfl)

theorem update_mirrors (settings : EngineSettings) (key : Int) (raw : List Char) (state : σ) :
    update settings key raw (Faulty.mk state []) =
      ((update settings key raw state).1, ⟨(update settings key raw state).2, []⟩) :=
  mirrors_of_agree (update_simulates (faultless σ) settings key raw rfl)

theorem delete_mirrors (key : Int) (state : σ) :
    delete key (Faulty.mk state []) =
      ((delete key state).1, ⟨(delete key state).2, []⟩) :=
  mirrors_of_agree (delete_simulates (faultless σ) key rfl)

/-- A value that has moved on a store of which nothing fails has moved on the store itself. -/
theorem faultless_seesMoveAlike (settings : EngineSettings) (key : Int) (state : σ) :
    SeesMoveAlike settings key (Faulty.mk state []) state := by
  intro entry other refreshed _ shown shownOther _
  rw [show Store.fetch (Faulty.mk state []) key = Store.fetch state key from
    guardedLook_faultless .fetch key (Store.fetch · key) state, shownOther] at shown
  cases shown
  rfl

theorem recalculate_mirrors (settings : EngineSettings) (key : Int) (state : σ) :
    recalculate settings key (Faulty.mk state []) =
      ((recalculate settings key state).1, ⟨(recalculate settings key state).2, []⟩) :=
  mirrors_of_agree (recalculate_agrees (faultless σ) settings rfl
    (faultless_seesMoveAlike settings key state))

/-- An operation during which nothing of the store fails does what it does on the store itself. -/
theorem run_mirrors (settings : EngineSettings) (operation : Operation) (state : σ) :
    operation.run settings (Faulty.mk state []) =
      ((operation.run settings state).1, ⟨(operation.run settings state).2, []⟩) := by
  have agree := operation_agrees (faultless σ) settings operation
    (show (faultless σ).related (Faulty.mk state []) state from rfl) fun key _ =>
      faultless_seesMoveAlike settings key state
  rw [show Answer.mapResults (faultless σ).view = id from funext mapResults_id] at agree
  exact mirrors_of_agree agree

end Engine

end Formulary
