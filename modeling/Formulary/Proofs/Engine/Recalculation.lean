import Formulary.Proofs.Engine.Consistency

/-!
# Recalculating

Recalculating files a value first and marks what depends on it afterwards, in two steps that are not
taken back together. The operations of the store that fail do so on every call. As long as looking at
the links is not among them, a changed value still leaves nothing fresh that depends on it; where it
is, the new value stays and the marks are lost.
-/

namespace Formulary.Engine

open Links

variable {settings : EngineSettings} {memory after : Memory} {failing : List StoreMethod} {id : Int}

/-- Links that all lead to smaller identities let everything depend on smaller identities only. -/
theorem lt_of_descending {links : List Link}
    (descending : ∀ link ∈ links, link.destination < link.origin) {origin destination : Int}
    (depends : DependsOn links origin destination) : destination < origin := by
  rcases depends with ⟨length, path⟩
  induction path with
  | single linked => exact descending _ linked
  | step linked _ inductionHypothesis =>
    exact Int.lt_trans inductionHypothesis (descending _ linked)

theorem acyclic_of_descending {links : List Link}
    (descending : ∀ link ∈ links, link.destination < link.origin) : Acyclic links :=
  fun id circle => Int.lt_irrefl id (lt_of_descending descending circle)

/-- Everything that depends on an identity is stale, as far as it has an entry. -/
def DependentsStale (memory : Memory) (id : Int) : Prop :=
  ∀ other entry, DependsOn memory.linkList other id → memory.table.find? other = some entry →
    entry.stale = true

theorem dependentsStale_of_invalidated {before : Memory}
    (invalidated : Invalidated (DependsOn before.linkList · id) before after) :
    DependentsStale after id := by
  intro other entry depends filed
  rw [invalidated.linkList] at depends
  rw [invalidated.within other depends, Option.map_eq_some_iff] at filed
  rcases filed with ⟨_, -, rfl⟩
  rfl

/-- If the looks at the links do not fail, the value of a recalculated entry keeps its bits or
nothing that depends on it is fresh, whichever other operations of the store fail on all their calls
and however the recalculation ends. -/
theorem recalculate_invalidates (acyclic : Acyclic memory.linkList)
    (looks : .dependents ∉ failing)
    (run : ((Operation.recalculate id).runFailing settings failing memory).2 = after) :
    after.resultBits id = memory.resultBits id ∨ DependentsStale after id := by
  rcases ran : recalculate settings id (Faulty.mk memory failing) with ⟨outcome, final⟩
  have after_eq := Action.bind_pure_snd (recalculate settings id) Answer.calculation
    (Faulty.mk memory failing)
  rw [ran] at after_eq
  replace after_eq : after = final.inner := run.symm.trans (congrArg Faulty.inner after_eq)
  obtain ⟨middle, -, kept, rfl | ⟨renewed, renewal, ⟨rfl, bits⟩ | ⟨marked, rfl, invalidated⟩⟩⟩ :=
    recalculate_cases acyclic ran
  · subst after_eq
    rw [Memory.resultBits, kept]
    exact .inl rfl
  · subst after_eq
    exact .inl (bits.resolve_right looks)
  · subst after_eq
    rw [← renewal.linkList_eq] at invalidated
    exact .inr (dependentsStale_of_invalidated invalidated)

/-- An entry and one that refers to it, both evaluated while differences were cut from the left. -/
def differenceStore : Memory :=
  ⟨.ofList [(1, ⟨"10-3-2".toList, 9, false⟩), (2, ⟨"\x7b1\x7d".toList, 9, false⟩)], [⟨2, 1⟩], 2⟩

theorem acyclic_differenceStore : Acyclic differenceStore.linkList :=
  acyclic_of_descending (by decide)

/-- The value moves from 9 to 5 under the other policy, and the entry that refers to it is stale. -/
theorem recalculate_invalidates_differenceStore :
    .dependents ∉ [StoreMethod.save] ∧
      (let after := ((Operation.recalculate 1).runFailing { policy := .leftAssociative } [.save]
          differenceStore).2
       after.resultBits 1 ≠ differenceStore.resultBits 1 ∧ DependentsStale after 1) := by
  have looks : .dependents ∉ [StoreMethod.save] := by decide
  have moved : ((Operation.recalculate 1).runFailing { policy := .leftAssociative } [.save]
      differenceStore).2.resultBits 1 ≠ differenceStore.resultBits 1 := by decide +kernel
  exact ⟨looks, moved, (recalculate_invalidates acyclic_differenceStore looks rfl).resolve_left moved⟩

/-- Where the links cannot be looked at, the value moves as well, but the entry that refers to it
stays fresh. -/
theorem recalculate_loses_marks :
    Acyclic differenceStore.linkList ∧
      (let after := ((Operation.recalculate 1).runFailing { policy := .leftAssociative }
          [.dependents] differenceStore).2
       after.resultBits 1 ≠ differenceStore.resultBits 1 ∧ ¬DependentsStale after 1) := by
  have evaluated :
      let after := ((Operation.recalculate 1).runFailing { policy := .leftAssociative }
        [.dependents] differenceStore).2
      after.resultBits 1 ≠ differenceStore.resultBits 1 ∧ after.linkList = [⟨2, 1⟩] ∧
        after.table.find? 2 = some ⟨"\x7b1\x7d".toList, 9, false⟩ := by decide +kernel
  refine ⟨acyclic_differenceStore, evaluated.1, fun stale => ?_⟩
  have depends : DependsOn [⟨2, 1⟩] 2 1 := .of_mem List.mem_cons_self
  rw [← evaluated.2.1] at depends
  cases stale 2 _ depends evaluated.2.2

end Formulary.Engine
