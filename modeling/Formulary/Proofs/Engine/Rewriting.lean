import Formulary.Proofs.Engine.InTurn
import Formulary.Proofs.Engine.Recalculation

/-!
# What changing a calculation does

A calculation gets a new formula exactly if what the formula refers to can be read in turn and does
not depend on the calculation itself. Then the entry and its links have changed, whatever depends on
it is stale, and for the rest only the readings have left their traces. The main statement is
`update_rewrites`.
-/

namespace Formulary.Engine

open Links

variable {settings : EngineSettings} {memory middle after : Memory} {id : Int}
  {raw formula : List Char} {ids : IdSet} {result : Float}

/-- What it takes to give a calculation the formula that a text spells: the text is accepted, the
calculation is there, the markers name neither the calculation nor anything that depends on it, and
by what they name, read in turn, the formula has a value. -/
structure Rewritable (settings : EngineSettings) (memory : Memory) (id : Int)
    (raw formula : List Char) (ids : IdSet) (result : Float) (middle : Memory) : Prop where
  spelled : Formula.canonical raw = .ok formula
  filed : memory.table.find? id ≠ none
  independent : ∀ other ∈ ids, other ≠ id ∧ ¬DependsOn memory.linkList other id
  evaluates : EvaluatesInTurn settings memory formula ids result middle

/-- What changing a calculation does to a store, which its readings left as the second store. -/
structure Rewritten (id : Int) (entry : Entry) (ids : IdSet) (before middle after : Memory) :
    Prop where
  row : after.table.find? id = some entry
  links : Relinked id (· ∈ ids) before.linkList after.linkList
  dependsOn_iff : ∀ other, DependsOn after.linkList other id ↔ DependsOn before.linkList other id
  dependents : ∀ other, DependsOn before.linkList other id → MarkedStale before after other
  elsewhere : ∀ other, other ≠ id → ¬DependsOn before.linkList other id →
    after.table.find? other = middle.table.find? other ∧ KeptOrRefreshed before after other
  rows : ∀ other, after.table.find? other = none ↔ before.table.find? other = none
  lastId : after.lastId = before.lastId

/-! ## When it answers -/

/-- The check of new links passes those that lead neither to their origin nor to anything that
depends on it. -/
theorem check_of_independent
    (independent : ∀ other ∈ ids, other ≠ id ∧ ¬DependsOn memory.linkList other id) :
    Action.mapError .links (.inspect (ensureAcyclic id ids)) (Faulty.mk memory []) =
      ((.ok (), ⟨memory, []⟩) : Except Failure Unit × Faulty Memory) := by
  apply Action.mapError_eq_ok_iff.mpr
  rw [Action.inspect_apply, Prod.mk.injEq]
  refine ⟨?_, rfl⟩
  cases checked : ensureAcyclic id ids (Faulty.mk memory []) with
  | ok => rfl
  | error error =>
    have foreign : id ∉ ids := fun member => (independent id member).1 rfl
    rcases ensureAcyclic_eq_error foreign checked with ⟨culprit, member, -, depends⟩
    exact absurd depends (independent culprit member).2

/-- What is independent of a calculation before some readings is so after them. -/
theorem Rewritable.independent_middle
    (rewritable : Rewritable settings memory id raw formula ids result middle) :
    ∀ other ∈ ids, other ≠ id ∧ ¬DependsOn middle.linkList other id := by
  rw [rewritable.evaluates.refreshed.linkList]
  exact rewritable.independent

/-- Where changing a calculation answers, it could be changed. -/
theorem exists_rewritable {calculation : Calculation}
    (run : update settings id raw memory = (.ok calculation, after)) :
    ∃ formula ids result middle,
      Rewritable settings memory id raw formula ids result middle := by
  have ran : update settings id raw (Faulty.mk memory []) = (.ok calculation, ⟨after, []⟩) := by
    rw [update_mirrors]
    exact mirrored_iff.mpr run
  rcases Action.bind_eq_ok_iff.mp ran with ⟨formula, state, accepted, rest⟩
  rcases Action.ofExcept_mapError_eq_ok_iff.mp accepted with ⟨spelled, rfl⟩
  rcases Action.bind_eq_ok_iff.mp rest with ⟨entry, state, found, rest⟩
  rcases filed_of_existing found with ⟨rfl, filed⟩
  rcases Action.bind_eq_ok_iff.mp rest with ⟨evaluated, state, evaluation, rest⟩
  rcases evaluate_renews evaluation with ⟨middle, rfl, renewals, -⟩
  rcases Action.bind_eq_ok_iff.mp rest with ⟨_, state, checked, -⟩
  rcases Prod.mk.inj (Action.mapError_eq_ok_iff.mp checked) with ⟨passed, -⟩
  have independent := independent_of_ensureAcyclic passed
  rw [renewals.refreshed.linkList] at independent
  rw [evaluate_mirrors] at evaluation
  have evaluates := (evaluate_eq_ok_iff.mp (mirrored_iff.mp evaluation)).2
  exact ⟨formula, evaluated.dependencies, evaluated.result, middle, spelled, filed ▸ nofun,
    independent, evaluates⟩

/-- Rewriting an entry answers, unless it would close a circle. -/
theorem exists_rewriting (entry : Entry) (acyclic : Acyclic memory.linkList)
    (filed : memory.table.find? id ≠ none)
    (independent : ∀ other ∈ ids, other ≠ id ∧ ¬DependsOn memory.linkList other id) :
    ∃ links after, (do
        Action.mapError .store (Store.replace (entry.withId id))
        recordLinks id ids
        let _ ← cascade id
        return () : Action (Faulty Memory) Failure Unit) ⟨memory, []⟩ = (.ok (), ⟨after, []⟩) ∧
      Relinked id (· ∈ ids) memory.linkList links ∧
        Invalidated (DependsOn links · id) { memory.file id entry with linkList := links } after := by
  rcases Action.exists_ok_of_ne_error fun _ _ =>
    rewriting_ne_error entry acyclic filed independent with ⟨⟨⟩, final, run⟩
  rcases rewriting_eq_ok run with ⟨-, links, after, rfl, relinked, invalidated⟩
  exact ⟨links, after, run, relinked, invalidated⟩

/-- Where a calculation can be changed, changing it answers the new entry. It has been filed where
the readings ended, its links have been replaced and what depends on it has been marked. -/
theorem Rewritable.exists_invalidated (acyclic : Acyclic memory.linkList)
    (rewritable : Rewritable settings memory id raw formula ids result middle) :
    ∃ links after, update settings id raw memory =
        (.ok (Entry.withId ⟨formula, result, false⟩ id), after) ∧
      Relinked id (· ∈ ids) middle.linkList links ∧
        Invalidated (DependsOn links · id)
          { middle.file id ⟨formula, result, false⟩ with linkList := links } after := by
  have refreshed := rewritable.evaluates.refreshed
  have independent := rewritable.independent_middle
  have foreign : ∀ self ∈ some id, self ∉ ids := by
    rintro _ ⟨⟩ member
    exact (independent id member).1 rfl
  have filedMiddle : middle.table.find? id ≠ none := by
    rw [Ne, refreshed.eq_none_iff]
    exact rewritable.filed
  have acyclicMiddle : Acyclic middle.linkList := by
    rw [refreshed.linkList]
    exact acyclic
  rcases exists_rewriting ⟨formula, result, false⟩ acyclicMiddle filedMiddle independent with
    ⟨links, after, rewriting, relinked, invalidated⟩
  refine ⟨links, after, ?_, relinked, invalidated⟩
  rcases Option.ne_none_iff_exists'.mp rewritable.filed with ⟨old, filed⟩
  have ran : update settings id raw (Faulty.mk memory []) =
      (.ok (Entry.withId ⟨formula, result, false⟩ id), ⟨after, []⟩) := by
    apply (Action.bind_of_ok
      (Action.ofExcept_mapError_eq_ok_iff.mpr ⟨rewritable.spelled, rfl⟩)).trans
    apply (Action.bind_of_ok (existing_of_filed filed)).trans
    apply (Action.bind_of_ok (rewritable.evaluates.evaluation (some id) foreign)).trans
    apply (Action.bind_of_ok (check_of_independent independent)).trans
    exact Action.bind_of_ok (Action.atomically_eq_ok_iff.mpr rewriting)
  rw [update_mirrors] at ran
  exact mirrored_iff.mp ran

/-! ## What it does -/

/-- The readings for a new formula leave what depends on the calculation as it was. -/
theorem Rewritable.dependent_unchanged (consistent : Consistent memory)
    (rewritable : Rewritable settings memory id raw formula ids result middle) {other : Int}
    (depends : DependsOn memory.linkList other id) :
    middle.table.find? other = memory.table.find? other := by
  rcases rewritable.evaluates.computed with ⟨values, inTurn, -⟩
  exact inTurn.upstream_unchanged consistent rewritable.independent (.inr depends)

/-- Where a calculation can be changed, what depends on it is marked as it was before the readings,
and everything else is as the readings have left it. -/
theorem Rewritable.exists_rewritten (consistent : Consistent memory)
    (rewritable : Rewritable settings memory id raw formula ids result middle) :
    ∃ after, update settings id raw memory =
        (.ok (Entry.withId ⟨formula, result, false⟩ id), after) ∧
      Rewritten id ⟨formula, result, false⟩ ids memory middle after := by
  rcases rewritable.exists_invalidated consistent.acyclic with
    ⟨links, after, run, relinked, invalidated⟩
  refine ⟨after, run, ?_⟩
  have refreshed := rewritable.evaluates.refreshed
  rw [refreshed.linkList] at relinked
  have acyclicAfter := relinked.acyclic consistent.acyclic rewritable.independent
  have depends_iff := relinked.dependsOn_origin_iff_of_acyclic consistent.acyclic acyclicAfter
  have marked := invalidated.congr depends_iff
  have row : after.table.find? id = some ⟨formula, result, false⟩ :=
    (marked.outside id (consistent.acyclic id)).trans (Memory.find?_file_self _ _ _)
  have dependents : ∀ other, DependsOn memory.linkList other id →
      MarkedStale memory after other := by
    intro other depends
    have different := consistent.acyclic.ne_of_dependsOn depends
    apply MarkedStale.of_invalidated marked depends
    · exact (Memory.find?_file_of_ne different).trans
        (rewritable.dependent_unchanged consistent depends)
    · exact consistent.toWellLinked.filed_of_dependsOn depends
  have elsewhere : ∀ other, other ≠ id → ¬DependsOn memory.linkList other id →
      after.table.find? other = middle.table.find? other ∧
        KeptOrRefreshed memory after other := by
    intro other different independent
    have same : after.table.find? other = middle.table.find? other :=
      (marked.outside other independent).trans (Memory.find?_file_of_ne different)
    rw [KeptOrRefreshed, same]
    exact ⟨rfl, refreshed.entry other⟩
  constructor
  case row => exact row
  case links =>
    rw [invalidated.linkList]
    exact relinked
  case dependsOn_iff =>
    rw [invalidated.linkList]
    exact depends_iff
  case dependents => exact dependents
  case elsewhere => exact elsewhere
  case rows =>
    intro other
    by_cases same : other = id
    · rw [same, row]
      exact iff_of_false nofun rewritable.filed
    · by_cases depends : DependsOn memory.linkList other id
      · exact (dependents other depends).eq_none_iff
      · exact (elsewhere other same depends).2.eq_none_iff
  case lastId => exact invalidated.lastId.trans refreshed.lastId

/-! ## Reached states -/

variable {allowed : EngineSettings → Prop} {mayFail : List StoreMethod → Prop}

/-- In every state that an engine can reach, changing a calculation answers exactly if the new
formula is accepted and has a value by what its markers name, read in turn, and these name neither
the calculation nor anything that depends on it. It then answers the new entry, and has changed this
entry and its links, marked what depends on it, and left everything else as the readings did. -/
theorem update_rewrites (reached : Reached allowed mayFail memory) (settings : EngineSettings)
    (id : Int) (raw : List Char) :
    ((∃ calculation, (update settings id raw memory).1 = .ok calculation) ↔
        ∃ formula ids result middle,
          Rewritable settings memory id raw formula ids result middle) ∧
      ∀ formula ids result middle,
        Rewritable settings memory id raw formula ids result middle →
          ∃ after, update settings id raw memory =
              (.ok (Entry.withId ⟨formula, result, false⟩ id), after) ∧
            Rewritten id ⟨formula, result, false⟩ ids memory middle after := by
  have consistent := consistent_empty.of_leads reached
  constructor
  · constructor
    · rintro ⟨calculation, answered⟩
      exact exists_rewritable (Prod.ext answered rfl)
    · rintro ⟨formula, ids, result, middle, rewritable⟩
      rcases rewritable.exists_rewritten consistent with ⟨after, run, -⟩
      exact ⟨_, congrArg Prod.fst run⟩
  · intro formula ids result middle rewritable
    exact rewritable.exists_rewritten consistent

/-- The entry that the second pair is made on can get a formula that refers to the stale entry. -/
theorem rewritable_layeredStore :
    ∃ middle, Rewritable {} layeredStore 3 "\x7b2\x7d+1".toList "\x7b2\x7d+1".toList (.ofList [2]) 9
      middle := by
  have valued : (Engine.read {} 2 layeredStore).1.map (·.result) = .ok 8 := by decide +kernel
  have present : (layeredStore.table.find? 3).isSome = true := by decide +kernel
  have references : Formula.references "\x7b2\x7d+1".toList = .ok (.ofList [2]) := by decide +kernel
  have descending : ∀ link ∈ layeredStore.linkList, link.destination < link.origin := by
    decide +kernel
  match run : Engine.read {} 2 layeredStore with
  | (.error failure, middle) =>
    rw [run] at valued
    cases valued
  | (.ok calculation, middle) =>
    rw [run] at valued
    have result_eq : calculation.result = 8 := Except.ok.inj valued
    refine ⟨middle, ?_⟩
    constructor
    case spelled => decide +kernel
    case filed => exact Option.isSome_iff_ne_none.mp present
    case independent =>
      intro other member
      obtain rfl : other = 2 := by simpa using member
      constructor
      · decide
      · intro depends
        have := lt_of_descending descending depends
        omega
    case evaluates =>
      constructor
      case markers => exact Formula.references_eq_ok_iff_markersName.mp references
      case computed =>
        refine ⟨_, .next run (.done middle), ?_⟩
        rw [result_eq]
        decide +kernel

/-- It then has the value by the refreshed one, and the entry that refers to it becomes stale. It
cannot get a formula that refers to that entry. -/
theorem update_rewrites_layeredStore :
    Reached (fun _ => True) (fun _ => True) layeredStore ∧
      (∃ middle after, update {} 3 "\x7b2\x7d+1".toList layeredStore =
          (.ok (Entry.withId ⟨"\x7b2\x7d+1".toList, 9, false⟩ 3), after) ∧
        Rewritten 3 ⟨"\x7b2\x7d+1".toList, 9, false⟩ (.ofList [2]) layeredStore middle after ∧
          MarkedStale layeredStore after 4) ∧
        ¬∃ calculation, (update {} 3 "\x7b4\x7d".toList layeredStore).1 = .ok calculation := by
  refine ⟨reached_layeredStore, ?_, ?_⟩
  · rcases rewritable_layeredStore with ⟨middle, rewritable⟩
    rcases (update_rewrites reached_layeredStore {} 3 "\x7b2\x7d+1".toList).2 _ _ _ _ rewritable with
      ⟨after, run, rewritten⟩
    exact ⟨middle, after, run, rewritten, rewritten.dependents 4 dependsOn_layeredStore⟩
  · intro answered
    rcases (update_rewrites reached_layeredStore {} 3 "\x7b4\x7d".toList).1.mp answered with
      ⟨formula, ids, result, middle, rewritable⟩
    have spelled : Formula.canonical "\x7b4\x7d".toList = .ok "\x7b4\x7d".toList := by decide +kernel
    cases spelled.symm.trans rewritable.spelled
    have named : 4 ∈ ids :=
      (rewritable.evaluates.markers.mem_iff 4).mpr ⟨['4'], by decide +kernel, by decide +kernel⟩
    exact (rewritable.independent 4 named).2 dependsOn_layeredStore

end Formulary.Engine
