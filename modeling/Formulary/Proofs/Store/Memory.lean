import Formulary.Engine.Operations
import Formulary.Proofs.Action
import Formulary.Store.Faulty
import Formulary.Store.Memory

/-!
# What a store in memory does

What each operation of a store in memory answers and leaves behind, seen from the engine, when some
operations of the store may fail.
-/

namespace Formulary

/-- An entry that has been marked stale. -/
def Entry.invalidated (entry : Entry) : Entry :=
  { entry with stale := true }

namespace Memory

/-- The memory with an entry filed under an identity. -/
def file (memory : Memory) (id : Int) (entry : Entry) : Memory :=
  { memory with table := memory.table.insert id entry }

@[simp]
theorem file_linkList (memory : Memory) (id : Int) (entry : Entry) :
    (memory.file id entry).linkList = memory.linkList :=
  rfl

@[simp]
theorem file_lastId (memory : Memory) (id : Int) (entry : Entry) :
    (memory.file id entry).lastId = memory.lastId :=
  rfl

theorem find?_file (memory : Memory) (id other : Int) (entry : Entry) :
    (memory.file id entry).table.find? other =
      if other = id then some entry else memory.table.find? other :=
  Table.find?_insert memory.table id other entry

@[simp]
theorem find?_file_self (memory : Memory) (id : Int) (entry : Entry) :
    (memory.file id entry).table.find? id = some entry := by
  rw [find?_file, if_pos rfl]

theorem find?_file_of_ne {memory : Memory} {id other : Int} {entry : Entry}
    (different : other ≠ id) :
    (memory.file id entry).table.find? other = memory.table.find? other := by
  rw [find?_file, if_neg different]

/-- The bits of the value that is filed under an identity. -/
def resultBits (memory : Memory) (id : Int) : Option UInt64 :=
  (memory.table.find? id).map (·.result.toBits)

end Memory

/-- An operation of a store that may fail answers only if it does not fail, and then as the store
around which it is does. -/
theorem Faulty.guarded_eq_ok {σ α : Type} {inner : σ} {failing : List StoreMethod}
    {method : StoreMethod} {id : Int} {step : Action σ StoreError α} {answer : α} {final : Faulty σ}
    (run : guarded method id step ⟨inner, failing⟩ = (.ok answer, final)) :
    method ∉ failing ∧ ∃ after, step inner = (.ok answer, after) ∧ final = ⟨after, failing⟩ := by
  by_cases fails : method ∈ failing
  · cases (Prod.mk.inj ((if_pos fails).symm.trans run)).1
  · rcases Prod.mk.inj ((if_neg fails).symm.trans run) with ⟨answered, rfl⟩
    exact ⟨fails, _, Prod.ext answered rfl, rfl⟩

/-- A store of which nothing fails fails only where the store around which it is does. -/
theorem Faulty.guarded_eq_error {σ α : Type} {inner : σ} {method : StoreMethod} {id : Int}
    {step : Action σ StoreError α} {error : StoreError} {final : Faulty σ}
    (run : guarded method id step ⟨inner, []⟩ = (.error error, final)) :
    (step inner).1 = .error error := by
  have ran : guarded method id step ⟨inner, []⟩ = ((step inner).1, ⟨(step inner).2, []⟩) :=
    if_neg List.not_mem_nil
  exact (Prod.mk.inj (ran.symm.trans run)).1

namespace Engine

variable {memory : Memory} {failing : List StoreMethod} {id : Int}

/-! ## Looking up and replacing entries -/

/-- A look at an entry either fails or shows what is filed. -/
theorem fetchRow_cases {outcome : Except StoreError (Option Entry)} {final : Faulty Memory}
    (run : Store.fetchRow id (Faulty.mk memory failing) = (outcome, final)) :
    final = ⟨memory, failing⟩ ∧
      ((.fetch ∉ failing ∧ outcome = .ok (memory.table.find? id)) ∨
        (.fetch ∈ failing ∧ outcome = .error (.missingRow id))) := by
  cases run
  refine ⟨rfl, ?_⟩
  by_cases fails : .fetch ∈ failing
  · exact .inr ⟨fails, if_pos fails⟩
  · exact .inl ⟨fails, if_neg fails⟩

/-- Looking for an entry that has to exist finds it, or fails and says why. -/
theorem existing_cases {outcome : Except Failure Entry} {final : Faulty Memory}
    (run : existing id (Faulty.mk memory failing) = (outcome, final)) :
    final = ⟨memory, failing⟩ ∧
      ((.fetch ∉ failing ∧ ∃ entry, memory.table.find? id = some entry ∧ outcome = .ok entry) ∨
        (.fetch ∉ failing ∧ memory.table.find? id = none ∧ outcome = .error (.notFound id)) ∨
          (.fetch ∈ failing ∧ outcome = .error (.store (.missingRow id)))) := by
  rcases Action.bind_cases run with ⟨found, middle, fetched, rest⟩ | ⟨error, fetched, rfl⟩
  · obtain ⟨rfl, ⟨works, found_eq⟩ | ⟨-, impossible⟩⟩ :=
      fetchRow_cases (Action.mapError_eq_ok_iff.mp fetched)
    · cases found_eq
      cases filed : memory.table.find? id with
      | some entry =>
        rw [filed] at rest
        cases rest
        exact ⟨rfl, .inl ⟨works, entry, rfl, rfl⟩⟩
      | none =>
        rw [filed] at rest
        cases rest
        exact ⟨rfl, .inr (.inl ⟨works, rfl, rfl⟩)⟩
    · cases impossible
  · rcases Action.mapError_eq_error_iff.mp fetched with ⟨cause, looked, rfl⟩
    rcases fetchRow_cases looked with ⟨rfl, ⟨-, impossible⟩ | ⟨fails, cause_eq⟩⟩
    · cases impossible
    · cases cause_eq
      exact ⟨rfl, .inr (.inr ⟨fails, rfl⟩)⟩

theorem filed_of_existing {entry : Entry} {final : Faulty Memory}
    (run : existing id (Faulty.mk memory failing) = (.ok entry, final)) :
    final = ⟨memory, failing⟩ ∧ memory.table.find? id = some entry := by
  obtain ⟨rfl, ⟨-, _, filed, same⟩ | ⟨-, -, impossible⟩ | ⟨-, impossible⟩⟩ := existing_cases run
  · cases same
    exact ⟨rfl, filed⟩
  · cases impossible
  · cases impossible

/-- Replacing an entry that is filed changes nothing else, unless it fails and changes nothing. -/
theorem replace_cases {entry : Entry} {outcome : Except StoreError Unit} {final : Faulty Memory}
    (run : Store.replace (entry.withId id) (Faulty.mk memory failing) = (outcome, final)) :
    (outcome = .ok () ∧ .replace ∉ failing ∧ memory.table.find? id ≠ none ∧
        final = ⟨memory.file id entry, failing⟩) ∨
      (outcome = .error (.missingRow id) ∧ final = ⟨memory, failing⟩ ∧
        (.replace ∈ failing ∨ memory.table.find? id = none)) := by
  by_cases fails : .replace ∈ failing
  · have replaced : Store.replace (entry.withId id) (Faulty.mk memory failing) =
        (.error (.missingRow id), ⟨memory, failing⟩) := if_pos fails
    cases replaced.symm.trans run
    exact .inr ⟨rfl, rfl, .inl fails⟩
  · have replaced : Store.replace (entry.withId id) (Faulty.mk memory failing) =
        ((Memory.replace (entry.withId id) memory).1,
          ⟨(Memory.replace (entry.withId id) memory).2, failing⟩) := if_neg fails
    cases filed : memory.table.find? id with
    | none =>
      have inner : Memory.replace (entry.withId id) memory = (.error (.missingRow id), memory) := by
        simp only [Memory.replace, Entry.withId, filed]
      rw [inner] at replaced
      cases replaced.symm.trans run
      exact .inr ⟨rfl, rfl, .inr rfl⟩
    | some _ =>
      have inner : Memory.replace (entry.withId id) memory = (.ok (), memory.file id entry) := by
        simp only [Memory.replace, Entry.withId, filed]
        rfl
      rw [inner] at replaced
      cases replaced.symm.trans run
      exact .inl ⟨rfl, fails, Option.some_ne_none _, rfl⟩

end Engine

end Formulary
