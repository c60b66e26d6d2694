import Formulary.Proofs.Engine.Deletion
import Formulary.Proofs.Engine.InTurn

/-!
# What creating and deleting do

A calculation can be created exactly if its formula is accepted and what it refers to can be read in
turn; it gets an identity that nothing has had before, and the rest of the store is as the readings
have left it. A calculation can be deleted exactly if it is there; the links to it stay, and what
depends on it becomes stale. The main statement is `creating_and_deleting`.
-/

namespace Formulary.Engine

open Links

variable {settings : EngineSettings} {memory middle after : Memory} {id : Int}
  {raw formula : List Char} {ids : IdSet} {result : Float}

/-! ## Creating -/

/-- What it takes to create a calculation with the formula that a text spells: the text is accepted,
and by what the markers name, read in turn, the formula has a value. -/
structure Creatable (settings : EngineSettings) (memory : Memory) (raw formula : List Char)
    (ids : IdSet) (result : Float) (middle : Memory) : Prop where
  spelled : Formula.canonical raw = .ok formula
  evaluates : EvaluatesInTurn settings memory formula ids result middle

/-- What creating a calculation does to a store, which its readings left as the second store. -/
structure Created (id : Int) (entry : Entry) (ids : IdSet) (before middle after : Memory) :
    Prop where
  absent : before.table.find? id = none
  row : after.table.find? id = some entry
  links : ∀ origin destination, ⟨origin, destination⟩ ∈ after.linkList ↔
    (origin = id ∧ destination ∈ ids) ∨ ⟨origin, destination⟩ ∈ before.linkList
  independent : ∀ other, ¬DependsOn after.linkList other id
  elsewhere : ∀ other, other ≠ id →
    after.table.find? other = middle.table.find? other ∧ KeptOrRefreshed before after other
  lastId : after.lastId = id

/-- Where creating a calculation answers, it could be created. -/
theorem exists_creatable {calculation : Calculation}
    (run : create settings raw memory = (.ok calculation, after)) :
    ∃ formula ids result middle, Creatable settings memory raw formula ids result middle := by
  rcases Action.bind_eq_ok_iff.mp run with ⟨formula, state, accepted, rest⟩
  rcases Action.ofExcept_mapError_eq_ok_iff.mp accepted with ⟨spelled, rfl⟩
  rcases Action.bind_eq_ok_iff.mp rest with ⟨evaluated, middle, evaluation, -⟩
  exact ⟨formula, evaluated.dependencies, evaluated.result, middle, spelled,
    (evaluate_eq_ok_iff.mp evaluation).2⟩

/-- Filing a new entry always answers. -/
theorem exists_filing (entry : Entry) (memory : Memory) (ids : IdSet) :
    ∃ links, (do
        let id ← Action.mapError .store (Store.save entry)
        recordLinks id ids
        return id : Action (Faulty Memory) Failure Int) ⟨memory, []⟩ =
          (.ok (memory.lastId + 1), ⟨⟨memory.table.insert (memory.lastId + 1) entry, links,
            memory.lastId + 1⟩, []⟩) ∧
      Relinked (memory.lastId + 1) (· ∈ ids) memory.linkList links := by
  rcases Action.exists_ok_of_ne_error fun _ _ => filing_ne_error entry with ⟨id, final, run⟩
  rcases filing_eq_ok run with ⟨rfl, links, rfl, relinked⟩
  exact ⟨links, run, relinked⟩

/-- Where a calculation can be created, creating it answers the new entry under the next identity.
It has been filed, with its links, where the readings ended. -/
theorem Creatable.exists_relinked
    (creatable : Creatable settings memory raw formula ids result middle) :
    ∃ links, create settings raw memory =
        (.ok (Entry.withId ⟨formula, result, false⟩ (middle.lastId + 1)),
          ⟨middle.table.insert (middle.lastId + 1) ⟨formula, result, false⟩, links,
            middle.lastId + 1⟩) ∧
      Relinked (middle.lastId + 1) (· ∈ ids) middle.linkList links := by
  rcases exists_filing ⟨formula, result, false⟩ middle ids with ⟨links, filing, relinked⟩
  refine ⟨links, ?_, relinked⟩
  have ran : create settings raw (Faulty.mk memory []) =
      (.ok (Entry.withId ⟨formula, result, false⟩ (middle.lastId + 1)),
        ⟨⟨middle.table.insert (middle.lastId + 1) ⟨formula, result, false⟩, links,
          middle.lastId + 1⟩, []⟩) := by
    apply (Action.bind_of_ok
      (Action.ofExcept_mapError_eq_ok_iff.mpr ⟨creatable.spelled, rfl⟩)).trans
    apply (Action.bind_of_ok (creatable.evaluates.evaluation none nofun)).trans
    exact Action.bind_of_ok (Action.atomically_eq_ok_iff.mpr filing)
  rw [create_mirrors] at ran
  exact mirrored_iff.mp ran

/-- The next identity has not been handed out, so nothing is linked to it and no links leave it, and
nothing else changes than the readings have changed. -/
theorem Creatable.exists_created (consistent : Consistent memory)
    (creatable : Creatable settings memory raw formula ids result middle) :
    ∃ after, create settings raw memory =
        (.ok (Entry.withId ⟨formula, result, false⟩ (memory.lastId + 1)), after) ∧
      Created (memory.lastId + 1) ⟨formula, result, false⟩ ids memory middle after := by
  rcases creatable.exists_relinked with ⟨links, run, relinked⟩
  have refreshed := creatable.evaluates.refreshed
  rw [refreshed.linkList, refreshed.lastId] at relinked
  rw [refreshed.lastId] at run
  refine ⟨_, run, ?_⟩
  constructor
  case absent =>
    by_contra present
    have := (consistent.rowBounds _ present).2
    omega
  case row => exact (Table.find?_insert _ _ _ _).trans (if_pos rfl)
  case links =>
    intro origin destination
    rw [relinked]
    apply or_congr_right
    apply and_iff_right_of_imp
    rintro old rfl
    have := (consistent.linkBounds _ _ old).1.2
    omega
  case independent =>
    intro other depends
    rcases depends.exists_last with ⟨last, linked⟩
    rcases (relinked _ _).mp linked with ⟨-, member⟩ | ⟨-, old⟩
    · have := (consistent.rowBounds _ (creatable.evaluates.filed member)).2
      omega
    · have := (consistent.linkBounds _ _ old).2.2
      omega
  case elsewhere =>
    intro other different
    have same : (middle.table.insert (memory.lastId + 1) ⟨formula, result, false⟩).find? other =
        middle.table.find? other := (Table.find?_insert _ _ _ _).trans (if_neg different)
    rw [KeptOrRefreshed, same]
    exact ⟨rfl, refreshed.entry other⟩
  case lastId => rfl

/-! ## Deleting -/

/-- What deleting a calculation does to a store. -/
structure Deleted (id : Int) (before after : Memory) : Prop where
  absent : after.table.find? id = none
  links : ∀ origin destination, ⟨origin, destination⟩ ∈ after.linkList ↔
    origin ≠ id ∧ ⟨origin, destination⟩ ∈ before.linkList
  dependsOn_iff : ∀ other, DependsOn after.linkList other id ↔ DependsOn before.linkList other id
  dependents : ∀ other, DependsOn before.linkList other id → MarkedStale before after other
  elsewhere : ∀ other, other ≠ id → ¬DependsOn before.linkList other id →
    after.table.find? other = before.table.find? other
  lastId : after.lastId = before.lastId

/-- Whatever is there can be deleted. Its links are taken away with it, and what depends on it is
marked. -/
theorem exists_invalidated_of_filed (acyclic : Acyclic memory.linkList)
    (filed : memory.table.find? id ≠ none) :
    ∃ links after, delete id memory = (.ok (), after) ∧
      Relinked id (fun _ => False) memory.linkList links ∧
        Invalidated (DependsOn links · id)
          { memory with table := memory.table.erase id, linkList := links } after := by
  rcases Action.exists_ok_of_ne_error fun _ _ =>
    removing_ne_error id acyclic with ⟨⟨⟩, final, removing⟩
  rcases removing_eq_ok removing with ⟨links, after, rfl, relinked, invalidated⟩
  refine ⟨links, after, ?_, relinked, invalidated⟩
  rcases Option.ne_none_iff_exists'.mp filed with ⟨entry, found⟩
  have ran : delete id (Faulty.mk memory []) = (.ok (), ⟨after, []⟩) := by
    apply (Action.bind_of_ok (existing_of_filed found)).trans
    exact Action.atomically_eq_ok_iff.mpr removing
  rw [delete_mirrors] at ran
  exact mirrored_iff.mp ran

theorem exists_deleted (consistent : Consistent memory) (filed : memory.table.find? id ≠ none) :
    ∃ after, delete id memory = (.ok (), after) ∧ Deleted id memory after := by
  rcases exists_invalidated_of_filed consistent.acyclic filed with
    ⟨links, after, run, relinked, invalidated⟩
  refine ⟨after, run, ?_⟩
  have acyclicAfter := relinked.acyclic consistent.acyclic fun _ => False.elim
  have depends_iff := relinked.dependsOn_origin_iff_of_acyclic consistent.acyclic acyclicAfter
  have marked := invalidated.congr depends_iff
  have kept : ∀ {other : Int}, other ≠ id →
      (memory.table.erase id).find? other = memory.table.find? other := fun different =>
    (Table.find?_erase _ _ _).trans (if_neg different)
  constructor
  case absent => rw [marked.outside id (consistent.acyclic id), Table.find?_erase, if_pos rfl]
  case links =>
    intro origin destination
    rw [invalidated.linkList, relinked]
    simp
  case dependsOn_iff =>
    rw [invalidated.linkList]
    exact depends_iff
  case dependents =>
    intro other depends
    apply MarkedStale.of_invalidated marked depends
    · exact kept (consistent.acyclic.ne_of_dependsOn depends)
    · exact consistent.toWellLinked.filed_of_dependsOn depends
  case elsewhere =>
    intro other different independent
    exact (marked.outside other independent).trans (kept different)
  case lastId => exact invalidated.lastId

/-! ## Reached states -/

variable {allowed : EngineSettings → Prop} {mayFail : List StoreMethod → Prop}

/-- No store on the way to a reached one has anything filed under the identity that is next. -/
theorem lt_next_of_leads {earlier : Memory} (reached : Reached allowed mayFail earlier)
    (leads : Leads allowed mayFail earlier memory) (present : earlier.table.find? id ≠ none) :
    id < memory.lastId + 1 := by
  have consistent := consistent_empty.of_leads reached
  have handedOut := (consistent.rowBounds id present).2
  have onward := (leads.onward consistent).lastId_le
  omega

/-- In every state that an engine can reach: creating a calculation answers exactly if its formula
is accepted and has a value by what its markers name, read in turn. It then answers the new entry
under an identity that is greater than any before, to which nothing is linked, and has left
everything else as the readings did. Deleting a calculation answers exactly if it is there. It and
its links are gone then, what depends on it has been marked, and everything else is as it was. -/
theorem creating_and_deleting (reached : Reached allowed mayFail memory)
    (settings : EngineSettings) :
    (∀ raw,
      ((∃ calculation, (create settings raw memory).1 = .ok calculation) ↔
          ∃ formula ids result middle,
            Creatable settings memory raw formula ids result middle) ∧
        ∀ formula ids result middle, Creatable settings memory raw formula ids result middle →
          ∃ id after, create settings raw memory =
              (.ok (Entry.withId ⟨formula, result, false⟩ id), after) ∧
            Created id ⟨formula, result, false⟩ ids memory middle after ∧
              ∀ earlier, Reached allowed mayFail earlier → Leads allowed mayFail earlier memory →
                ∀ other, earlier.table.find? other ≠ none → other < id) ∧
      ∀ id,
        ((∃ answer, (delete id memory).1 = .ok answer) ↔ memory.table.find? id ≠ none) ∧
          (memory.table.find? id ≠ none →
            ∃ after, delete id memory = (.ok (), after) ∧ Deleted id memory after) := by
  have consistent := consistent_empty.of_leads reached
  constructor
  · intro raw
    constructor
    · constructor
      · rintro ⟨calculation, answered⟩
        exact exists_creatable (Prod.ext answered rfl)
      · rintro ⟨formula, ids, result, middle, creatable⟩
        rcases creatable.exists_created consistent with ⟨after, run, -⟩
        exact ⟨_, congrArg Prod.fst run⟩
    · intro formula ids result middle creatable
      rcases creatable.exists_created consistent with ⟨after, run, created⟩
      refine ⟨memory.lastId + 1, after, run, created, ?_⟩
      intro earlier reachedEarlier leads other
      exact lt_next_of_leads reachedEarlier leads
  · intro id
    constructor
    · constructor
      · rintro ⟨answer, answered⟩
        have ran : delete id (Faulty.mk memory []) =
            (.ok answer, ⟨(delete id memory).2, []⟩) := by
          rw [delete_mirrors, answered]
        exact (delete_eq_ok ran).1
      · intro filed
        rcases exists_deleted consistent filed with ⟨after, run, -⟩
        exact ⟨(), congrArg Prod.fst run⟩
    · exact exists_deleted consistent

/-- What refers to the stale entry is created under the next identity. Where an entry is deleted, the
entry that refers to it becomes stale, and the link between them stays. -/
theorem creating_and_deleting_layeredStore :
    Reached (fun _ => True) (fun _ => True) layeredStore ∧
      (∃ entry ids middle after,
        create {} "\x7b2\x7d*3".toList layeredStore = (.ok (entry.withId 5), after) ∧
          entry.result = 24 ∧ Created 5 entry ids layeredStore middle after) ∧
        (∃ after, delete 3 layeredStore = (.ok (), after) ∧ after.table.find? 3 = none ∧
          MarkedStale layeredStore after 4 ∧ ⟨4, 3⟩ ∈ after.linkList) ∧
          ¬∃ answer, (delete 5 layeredStore).1 = .ok answer := by
  have created : (create {} "\x7b2\x7d*3".toList layeredStore).1.map (fun calculation =>
      (calculation.result, calculation.id)) = .ok (24, some 5) := by decide +kernel
  have present : layeredStore.table.find? 3 ≠ none := by
    rw [Ne, ← Option.isNone_iff_eq_none]
    decide +kernel
  have absent : layeredStore.table.find? 5 = none :=
    Option.isNone_iff_eq_none.mp (by decide +kernel)
  have linked : ⟨4, 3⟩ ∈ layeredStore.linkList := by decide +kernel
  rcases creating_and_deleting reached_layeredStore {} with ⟨creates, deletes⟩
  refine ⟨reached_layeredStore, ?_, ?_, ?_⟩
  · rcases creates "\x7b2\x7d*3".toList with ⟨answers, creates⟩
    cases answered : (create {} "\x7b2\x7d*3".toList layeredStore).1 with
    | error failure =>
      rw [answered] at created
      cases created
    | ok calculation =>
      rcases answers.mp ⟨calculation, answered⟩ with ⟨formula, ids, result, middle, creatable⟩
      rcases creates formula ids result middle creatable with ⟨id, after, run, effect, -⟩
      rw [run] at created
      rcases Prod.mk.inj (Except.ok.inj created) with ⟨result_eq, id_eq⟩
      cases id_eq
      exact ⟨_, ids, middle, after, run, result_eq, effect⟩
  · rcases (deletes 3).2 present with ⟨after, run, effect⟩
    exact ⟨after, run, effect.absent, effect.dependents 4 dependsOn_layeredStore,
      (effect.links 4 3).mpr ⟨by decide, linked⟩⟩
  · intro answered
    exact (deletes 5).1.mp answered absent

end Formulary.Engine
