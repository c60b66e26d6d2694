import Formulary.Engine.History
import Formulary.Proofs.Engine.Renewal
import Formulary.Proofs.Links.OnePass

/-!
# What an operation can do

Every operation of the engine, whether it succeeds or fails and whatever operations of the store
fail during it, first renews stale entries and then makes at most one change. `Change` lists the
changes with everything that is known when they are made; invariants of the states that an engine
can reach follow from it and need not look into the operations again.
-/

namespace Formulary.Engine

open Links

/-- The changes that an operation can make. -/
inductive Change (evaluator : Formula.Evaluator) (memory : Memory) : Memory → Prop where
  | unchanged : Change evaluator memory memory
  /-- A new entry has been filed under the next identity and linked to what it refers to. -/
  | created {raw formula : List Char} {evaluated : Evaluated} {links : List Link} :
      Formula.canonical raw = .ok formula → Evaluates evaluator memory formula none evaluated →
        Relinked (memory.lastId + 1) (· ∈ evaluated.dependencies) memory.linkList links →
          Change evaluator memory
            ⟨memory.table.insert (memory.lastId + 1) ⟨formula, evaluated.result, false⟩, links,
              memory.lastId + 1⟩
  /-- An entry has got another formula and other links, and what depends on it has been marked. -/
  | rewritten {id : Int} {old : Entry} {raw formula : List Char} {evaluated : Evaluated}
      {links : List Link} {after : Memory} :
      memory.table.find? id = some old → Formula.canonical raw = .ok formula →
        Evaluates evaluator memory formula (some id) evaluated →
          (∀ other ∈ evaluated.dependencies, other ≠ id ∧ ¬DependsOn memory.linkList other id) →
            Relinked id (· ∈ evaluated.dependencies) memory.linkList links →
              Invalidated (DependsOn links · id)
                { memory.file id ⟨formula, evaluated.result, false⟩ with linkList := links } after →
                  Change evaluator memory after
  /-- An entry and its links have been taken away, and what depends on it has been marked. -/
  | deleted {id : Int} {old : Entry} {links : List Link} {after : Memory} :
      memory.table.find? id = some old → Relinked id (fun _ => False) memory.linkList links →
        Invalidated (DependsOn links · id)
          { memory with table := memory.table.erase id, linkList := links } after →
            Change evaluator memory after
  /-- An entry, fresh or stale, has been evaluated anew. -/
  | recalculated {id : Int} {after : Memory} :
      Renewal evaluator id memory after → Change evaluator memory after
  /-- An entry has been evaluated anew, and what depends on it has been marked. -/
  | moved {id : Int} {middle after : Memory} :
      Renewal evaluator id memory middle →
        Invalidated (DependsOn memory.linkList · id) middle after → Change evaluator memory after

/-- Stale entries have been renewed, and then there has been a change. -/
def Changes (evaluator : Formula.Evaluator) (memory after : Memory) : Prop :=
  ∃ middle, Renewals evaluator memory middle ∧ Change evaluator middle after

variable {settings : EngineSettings} {memory after : Memory} {failing : List StoreMethod}
  {final : Faulty Memory} {id : Int} {raw : List Char}

/-! ## The operations -/

theorem evaluate_renews {formula : List Char} {self : Option Int}
    {outcome : Except Failure Evaluated}
    (run : evaluate settings formula self ⟨memory, failing⟩ = (outcome, final)) :
    ∃ after, final = ⟨after, failing⟩ ∧ Renewals settings.evaluator memory after ∧
      ∀ evaluated, outcome = .ok evaluated →
        Evaluates settings.evaluator after formula self evaluated := by
  rcases (read_renews settings).evaluateWith run with ⟨after, final_eq, renewals, -, evaluates⟩
  exact ⟨after, final_eq, renewals, evaluates⟩

/-- An operation that ends with evaluating has renewed entries and changed nothing else. -/
theorem Changes.of_renewals (renewals : Renewals settings.evaluator memory after) :
    Changes settings.evaluator memory after :=
  ⟨after, renewals, .unchanged⟩

theorem recordLinks_eq_ok {dependencies : IdSet}
    (run : recordLinks id dependencies (Faulty.mk memory failing) = (.ok (), final)) :
    ∃ links, final = ⟨{ memory with linkList := links }, failing⟩ ∧
      Relinked id (· ∈ dependencies) memory.linkList links :=
  record_eq_ok (Action.mapError_eq_ok_iff.mp run)

theorem cascade_eq_ok {reached : List Int}
    (run : cascade id (Faulty.mk memory failing) = (.ok reached, final)) :
    ∃ after, final = ⟨after, failing⟩ ∧
      Invalidated (DependsOn memory.linkList · id) memory after := by
  obtain ⟨_, after, -, final_eq, invalidated⟩ | ⟨_, impossible, -⟩ :=
    cascade_cases (Action.mapError_eq_ok_iff.mp run)
  · exact ⟨after, final_eq, invalidated⟩
  · cases impossible

/-- Filing a new entry puts it under the next identity, linked to what it refers to. -/
theorem filing_eq_ok {entry : Entry} {dependencies : IdSet}
    (run : (do
      let id ← Action.mapError .store (Store.save entry)
      recordLinks id dependencies
      return id : Action (Faulty Memory) Failure Int) ⟨memory, failing⟩ = (.ok id, final)) :
    id = memory.lastId + 1 ∧ ∃ links,
      final = ⟨⟨memory.table.insert (memory.lastId + 1) entry, links, memory.lastId + 1⟩, failing⟩ ∧
        Relinked (memory.lastId + 1) (· ∈ dependencies) memory.linkList links := by
  rcases Action.bind_eq_ok_iff.mp run with ⟨newId, state, saved, rest⟩
  obtain ⟨-, _, inserted, rfl⟩ := Faulty.guarded_eq_ok (Action.mapError_eq_ok_iff.mp saved)
  cases inserted
  rcases Action.bind_eq_ok_iff.mp rest with ⟨_, state, recorded, last⟩
  rcases recordLinks_eq_ok recorded with ⟨links, rfl, relinked⟩
  cases last
  exact ⟨rfl, links, rfl, relinked⟩

/-- Rewriting an entry changes it and its links, and marks what depends on it. -/
theorem rewriting_eq_ok {entry : Entry} {dependencies : IdSet}
    (run : (do
      Action.mapError .store (Store.replace (entry.withId id))
      recordLinks id dependencies
      let _ ← cascade id
      return () : Action (Faulty Memory) Failure Unit) ⟨memory, failing⟩ = (.ok (), final)) :
    memory.table.find? id ≠ none ∧ ∃ links after, final = ⟨after, failing⟩ ∧
      Relinked id (· ∈ dependencies) memory.linkList links ∧
        Invalidated (DependsOn links · id) { memory.file id entry with linkList := links } after := by
  rcases Action.bind_eq_ok_iff.mp run with ⟨_, state, replaced, rest⟩
  obtain ⟨-, -, present, rfl⟩ | ⟨impossible, -⟩ :=
    replace_cases (Action.mapError_eq_ok_iff.mp replaced)
  · rcases Action.bind_eq_ok_iff.mp rest with ⟨_, state, recorded, rest⟩
    rcases recordLinks_eq_ok recorded with ⟨links, rfl, relinked⟩
    rcases Action.bind_eq_ok_iff.mp rest with ⟨_, state, cascaded, last⟩
    rcases cascade_eq_ok cascaded with ⟨after, rfl, invalidated⟩
    cases last
    exact ⟨present, links, after, rfl, relinked, invalidated⟩
  · cases impossible

/-- Removing an entry takes it and its links away, and marks what depends on it. -/
theorem removing_eq_ok
    (run : (do
      Action.mapError .store (Store.unlink id)
      Action.mapError .store (Store.remove id)
      let _ ← cascade id
      return () : Action (Faulty Memory) Failure Unit) ⟨memory, failing⟩ = (.ok (), final)) :
    ∃ links after, final = ⟨after, failing⟩ ∧ Relinked id (fun _ => False) memory.linkList links ∧
      Invalidated (DependsOn links · id)
        { memory with table := memory.table.erase id, linkList := links } after := by
  rcases Action.bind_eq_ok_iff.mp run with ⟨_, state, unlinked, rest⟩
  rcases unlink_eq_ok (Action.mapError_eq_ok_iff.mp unlinked) with ⟨links, rfl, relinked⟩
  rcases Action.bind_eq_ok_iff.mp rest with ⟨_, state, removed, rest⟩
  rcases Faulty.guarded_eq_ok (Action.mapError_eq_ok_iff.mp removed) with ⟨-, _, erased, rfl⟩
  cases erased
  rcases Action.bind_eq_ok_iff.mp rest with ⟨_, state, cascaded, last⟩
  rcases cascade_eq_ok cascaded with ⟨after, rfl, invalidated⟩
  cases last
  exact ⟨links, after, rfl, relinked, invalidated⟩

theorem create_changes {outcome : Except Failure Calculation}
    (run : create settings raw ⟨memory, failing⟩ = (outcome, final)) :
    ∃ after, final = ⟨after, failing⟩ ∧ Changes settings.evaluator memory after ∧
      ∀ failure, outcome = .error failure → Renewals settings.evaluator memory after := by
  rcases Action.bind_cases run with ⟨formula, state, spelled, rest⟩ | ⟨failure, spelled, rfl⟩
  · rcases Action.ofExcept_mapError_eq_ok_iff.mp spelled with ⟨canonical, rfl⟩
    rcases Action.bind_cases rest with
      ⟨evaluated, state, evaluation, rest⟩ | ⟨failure, evaluation, rfl⟩
    · rcases evaluate_renews evaluation with ⟨middle, rfl, renewals, evaluates⟩
      rcases Action.bind_cases rest with ⟨id, state, filed, last⟩ | ⟨failure, filed, rfl⟩
      · cases last
        rcases Action.atomically_cases filed with ⟨_, -, filing⟩ | ⟨_, impossible, -⟩
        · rcases filing_eq_ok filing with ⟨-, links, rfl, relinked⟩
          exact ⟨_, rfl, ⟨middle, renewals, .created canonical (evaluates evaluated rfl) relinked⟩,
            nofun⟩
        · cases impossible
      · rcases Action.atomically_cases filed with ⟨_, impossible, -⟩ | ⟨_, -, rfl⟩
        · cases impossible
        · exact ⟨middle, rfl, .of_renewals renewals, fun _ _ => renewals⟩
    · rcases evaluate_renews evaluation with ⟨middle, rfl, renewals, -⟩
      exact ⟨middle, rfl, .of_renewals renewals, fun _ _ => renewals⟩
  · rcases Prod.mk.inj spelled with ⟨-, rfl⟩
    exact ⟨memory, rfl, .of_renewals .refl, fun _ _ => .refl⟩

theorem read_changes {outcome : Except Failure Calculation}
    (run : read settings id ⟨memory, failing⟩ = (outcome, final)) :
    ∃ after, final = ⟨after, failing⟩ ∧ Changes settings.evaluator memory after := by
  rcases read_renews settings run with ⟨after, rfl, renewals, -⟩
  exact ⟨after, rfl, .of_renewals renewals⟩

theorem update_changes {outcome : Except Failure Calculation}
    (run : update settings id raw ⟨memory, failing⟩ = (outcome, final)) :
    ∃ after, final = ⟨after, failing⟩ ∧ Changes settings.evaluator memory after ∧
      ∀ failure, outcome = .error failure → Renewals settings.evaluator memory after := by
  rcases Action.bind_cases run with ⟨formula, state, spelled, rest⟩ | ⟨failure, spelled, rfl⟩
  · rcases Action.ofExcept_mapError_eq_ok_iff.mp spelled with ⟨canonical, rfl⟩
    rcases Action.bind_cases rest with ⟨_, state, found, rest⟩ | ⟨failure, found, rfl⟩
    · rcases existing_cases found with ⟨rfl, -⟩
      rcases Action.bind_cases rest with
        ⟨evaluated, state, evaluation, rest⟩ | ⟨failure, evaluation, rfl⟩
      · rcases evaluate_renews evaluation with ⟨middle, rfl, renewals, evaluates⟩
        rcases Action.bind_cases rest with ⟨_, state, checked, rest⟩ | ⟨failure, checked, rfl⟩
        · rcases Prod.mk.inj (Action.mapError_eq_ok_iff.mp checked) with ⟨passed, rfl⟩
          rcases Action.bind_cases rest with ⟨_, state, filed, last⟩ | ⟨failure, filed, rfl⟩
          · cases last
            rcases Action.atomically_cases filed with ⟨_, -, filing⟩ | ⟨_, impossible, -⟩
            · rcases rewriting_eq_ok filing with
                ⟨present, links, after, rfl, relinked, invalidated⟩
              rcases Option.ne_none_iff_exists'.mp present with ⟨old, filedOld⟩
              exact ⟨after, rfl, ⟨middle, renewals, .rewritten filedOld canonical
                (evaluates evaluated rfl) (independent_of_ensureAcyclic passed) relinked
                invalidated⟩, nofun⟩
            · cases impossible
          · rcases Action.atomically_cases filed with ⟨_, impossible, -⟩ | ⟨_, -, rfl⟩
            · cases impossible
            · exact ⟨middle, rfl, .of_renewals renewals, fun _ _ => renewals⟩
        · rcases Prod.mk.inj checked with ⟨-, rfl⟩
          exact ⟨middle, rfl, .of_renewals renewals, fun _ _ => renewals⟩
      · rcases evaluate_renews evaluation with ⟨middle, rfl, renewals, -⟩
        exact ⟨middle, rfl, .of_renewals renewals, fun _ _ => renewals⟩
    · rcases existing_cases found with ⟨rfl, -⟩
      exact ⟨memory, rfl, .of_renewals .refl, fun _ _ => .refl⟩
  · rcases Prod.mk.inj spelled with ⟨-, rfl⟩
    exact ⟨memory, rfl, .of_renewals .refl, fun _ _ => .refl⟩

theorem delete_changes (evaluator : Formula.Evaluator) {outcome : Except Failure Unit}
    (run : delete id (Faulty.mk memory failing) = (outcome, final)) :
    ∃ after, final = ⟨after, failing⟩ ∧ Changes evaluator memory after ∧
      ∀ failure, outcome = .error failure → after = memory := by
  rcases Action.bind_cases run with ⟨entry, state, found, removal⟩ | ⟨failure, found, rfl⟩
  · obtain ⟨rfl, ⟨-, old, filed, -⟩ | ⟨-, -, impossible⟩ | ⟨-, impossible⟩⟩ := existing_cases found
    · rcases Action.atomically_cases removal with ⟨_, rfl, removing⟩ | ⟨_, -, rfl⟩
      · rcases removing_eq_ok removing with ⟨links, after, rfl, relinked, invalidated⟩
        exact ⟨after, rfl, ⟨memory, .refl, .deleted filed relinked invalidated⟩, nofun⟩
      · exact ⟨memory, rfl, ⟨memory, .refl, .unchanged⟩, fun _ _ => rfl⟩
    · cases impossible
    · cases impossible
  · rcases existing_cases found with ⟨rfl, -⟩
    exact ⟨memory, rfl, ⟨memory, .refl, .unchanged⟩, fun _ _ => rfl⟩

/-- Recalculating renews stale entries, and then the entry itself if it answers its value. The entry
keeps the bits of its value, or what depends on it has been marked, unless the looks at the links
fail. A cascade cannot fail otherwise: the entry has just been looked up and replaced. -/
theorem recalculate_cases (acyclic : Acyclic memory.linkList)
    {outcome : Except Failure Calculation}
    (run : recalculate settings id ⟨memory, failing⟩ = (outcome, final)) :
    ∃ middle, Renewals settings.evaluator memory middle ∧
      middle.table.find? id = memory.table.find? id ∧
        (final = ⟨middle, failing⟩ ∨ ∃ renewed, Renewal settings.evaluator id middle renewed ∧
          ((final = ⟨renewed, failing⟩ ∧
              (renewed.resultBits id = memory.resultBits id ∨ .dependents ∈ failing)) ∨
            ∃ after, final = ⟨after, failing⟩ ∧
              Invalidated (DependsOn middle.linkList · id) renewed after)) := by
  rcases Action.bind_cases run with ⟨entry, state, found, rest⟩ | ⟨failure, found, rfl⟩
  · obtain ⟨rfl, ⟨fetches, _, filed, same⟩ | ⟨-, -, impossible⟩ | ⟨-, impossible⟩⟩ :=
      existing_cases found
    · cases same
      rcases Action.bind_cases rest with ⟨refreshed, state, renewed, rest⟩ | ⟨failure, renewed, rfl⟩
      · rcases refreshWithin_renews settings settings.maxDepth [] filed renewed with
          ⟨middle, renewals, -,
            ⟨_, impossible, -⟩ | ⟨evaluated, evaluates, -, replaces, filedStill, answered, rfl⟩⟩
        · cases impossible
        · cases answered
          refine ⟨middle, renewals, filedStill.trans filed.symm, .inr
            ⟨_, .renew filedStill evaluates, ?_⟩⟩
          simp only at rest
          split at rest
          · rcases Action.bind_cases rest with ⟨_, state, cascaded, last⟩ | ⟨failure, cascaded, rfl⟩
            · cases last
              rcases cascade_eq_ok cascaded with ⟨after, rfl, invalidated⟩
              exact .inr ⟨after, rfl, invalidated⟩
            · rcases Action.mapError_eq_error_iff.mp cascaded with ⟨cause, failed, rfl⟩
              obtain ⟨_, _, impossible, -⟩ | ⟨_, -, ⟨fails, rfl⟩ | fails | fails | circle⟩ :=
                cascade_cases failed
              · cases impossible
              · exact .inl ⟨rfl, .inr fails⟩
              · exact absurd fails fetches
              · exact absurd fails replaces
              · rw [Memory.file_linkList, renewals.refreshed.linkList] at circle
                exact absurd circle (acyclic id)
          · rename_i unmoved
            cases rest
            refine .inl ⟨rfl, .inl ?_⟩
            rw [Memory.resultBits, Memory.find?_file_self, Memory.resultBits, filed]
            exact congrArg some (not_not.mp unmoved)
      · obtain ⟨middle, renewals, kept, ⟨_, -, rfl⟩ | ⟨_, _, _, _, _, impossible, _⟩⟩ :=
          refreshWithin_renews settings settings.maxDepth [] filed renewed
        · exact ⟨middle, renewals, kept id List.mem_cons_self, .inl rfl⟩
        · cases impossible
    · cases impossible
    · cases impossible
  · rcases existing_cases found with ⟨rfl, -⟩
    exact ⟨memory, .refl, rfl, .inl rfl⟩

theorem recalculate_changes (acyclic : Acyclic memory.linkList)
    {outcome : Except Failure Calculation}
    (run : recalculate settings id ⟨memory, failing⟩ = (outcome, final)) :
    ∃ after, final = ⟨after, failing⟩ ∧ Changes settings.evaluator memory after := by
  obtain ⟨middle, renewals, -, rfl | ⟨renewed, renewal, ⟨rfl, -⟩ | ⟨after, rfl, invalidated⟩⟩⟩ :=
    recalculate_cases acyclic run
  · exact ⟨middle, rfl, .of_renewals renewals⟩
  · exact ⟨renewed, rfl, middle, renewals, .recalculated renewal⟩
  · exact ⟨after, rfl, middle, renewals, .moved renewal invalidated⟩

/-- Every operation renews stale entries and then makes at most one change, if the links run in no
circle. -/
theorem run_changes (acyclic : Acyclic memory.linkList) (operation : Operation)
    (settings : EngineSettings) (failing : List StoreMethod) :
    Changes settings.evaluator memory (operation.runFailing settings failing memory).2 := by
  have ofStep : ∀ {α : Type} {step : Action (Faulty Memory) Failure α} (answer : α → Answer),
      (∃ after, (step ⟨memory, failing⟩).2 = ⟨after, failing⟩ ∧
        Changes settings.evaluator memory after) →
          Changes settings.evaluator memory
            ((step >>= fun result => pure (answer result)) ⟨memory, failing⟩).2.inner := by
    rintro α step answer ⟨after, final_eq, changes⟩
    rw [Action.bind_pure_snd, final_eq]
    exact changes
  cases operation with
  | create raw =>
    obtain ⟨after, final_eq, changes, -⟩ :=
      create_changes (rfl : create settings raw (Faulty.mk memory failing) = _)
    exact ofStep .calculation ⟨after, final_eq, changes⟩
  | read id => exact ofStep .calculation (read_changes rfl)
  | update id raw =>
    obtain ⟨after, final_eq, changes, -⟩ :=
      update_changes (rfl : update settings id raw (Faulty.mk memory failing) = _)
    exact ofStep .calculation ⟨after, final_eq, changes⟩
  | delete id =>
    obtain ⟨after, final_eq, changes, -⟩ :=
      delete_changes settings.evaluator (rfl : delete id (Faulty.mk memory failing) = _)
    exact ofStep (fun _ => .nothing) ⟨after, final_eq, changes⟩
  | recalculate id => exact ofStep .calculation (recalculate_changes acyclic rfl)

end Formulary.Engine
