import Formulary.Proofs.Links.Relink
import Formulary.Proofs.Links.Walk
import Formulary.Proofs.Store.Memory

/-!
# What changes of links do to a store in memory

Recording links replaces those of one identity, the check of new links passes only those that close
no circle, and marking an entry changes nothing but its mark. Some operations of the store may fail.
-/

namespace Formulary.Links

variable {memory : Memory} {failing : List StoreMethod} {final : Faulty Memory}

/-! ## Recording -/

theorem link_eq_ok {link : Link}
    (run : Store.link link (Faulty.mk memory failing) = (.ok (), final)) :
    ∃ links, final = ⟨{ memory with linkList := links }, failing⟩ ∧
      ∀ other, other ∈ links ↔ other ∈ memory.linkList ∨ other = link := by
  rcases Faulty.guarded_eq_ok run with ⟨-, after, linked, rfl⟩
  change Memory.link link memory = _ at linked
  rw [Memory.link] at linked
  split at linked
  · rename_i present
    cases linked
    refine ⟨memory.linkList, rfl, fun other => ⟨.inl, ?_⟩⟩
    rintro (member | rfl)
    · exact member
    · exact present
  · cases linked
    exact ⟨_, rfl, fun other => by simp⟩

theorem addAll_eq_ok {origin : Int} {ids : List Int}
    (run : addAll origin ids (Faulty.mk memory failing) = (.ok (), final)) :
    ∃ links, final = ⟨{ memory with linkList := links }, failing⟩ ∧
      ∀ other, other ∈ links ↔
        other ∈ memory.linkList ∨ (other.origin = origin ∧ other.destination ∈ ids) := by
  induction ids generalizing memory with
  | nil =>
    cases run
    exact ⟨memory.linkList, rfl, by simp⟩
  | cons id rest inductionHypothesis =>
    rcases Action.bind_eq_ok_iff.mp run with ⟨_, state, linked, restRun⟩
    rcases link_eq_ok linked with ⟨first, rfl, memFirst⟩
    rcases inductionHypothesis restRun with ⟨links, rfl, memLinks⟩
    refine ⟨links, rfl, fun ⟨source, destination⟩ => ?_⟩
    rw [memLinks, memFirst, List.mem_cons, Link.mk.injEq]
    grind

theorem unlink_eq_ok {origin : Int}
    (run : Store.unlink origin (Faulty.mk memory failing) = (.ok (), final)) :
    ∃ links, final = ⟨{ memory with linkList := links }, failing⟩ ∧
      Relinked origin (fun _ => False) memory.linkList links := by
  rcases Faulty.guarded_eq_ok run with ⟨-, after, removed, rfl⟩
  cases removed
  refine ⟨_, rfl, fun source destination => ?_⟩
  simp [List.mem_filter, and_comm]

/-- Recording that succeeds replaces the links of one identity. -/
theorem record_eq_ok {origin : Int} {dependencies : IdSet}
    (run : record origin dependencies (Faulty.mk memory failing) = (.ok (), final)) :
    ∃ links, final = ⟨{ memory with linkList := links }, failing⟩ ∧
      Relinked origin (· ∈ dependencies) memory.linkList links := by
  obtain ⟨_, state, unlinked, added⟩ :=
    Action.bind_eq_ok_iff.mp (Action.mapError_eq_ok_iff.mp run)
  rcases unlink_eq_ok unlinked with ⟨rest, rfl, memRest⟩
  rcases addAll_eq_ok added with ⟨links, rfl, memLinks⟩
  refine ⟨links, rfl, fun source destination => ?_⟩
  rw [memLinks, memRest]
  simp only [and_false, false_or, ← IdSet.mem_def]
  exact or_comm

theorem link_ne_error {link : Link} {error : StoreError} :
    Store.link link (Faulty.mk memory []) ≠ (.error error, final) := by
  intro run
  have failed : (Memory.link link memory).1 = .error error := Faulty.guarded_eq_error run
  rw [Memory.link] at failed
  split at failed <;> cases failed

theorem addAll_ne_error {origin : Int} {ids : List Int} {error : StoreError} :
    addAll origin ids (Faulty.mk memory []) ≠ (.error error, final) := by
  intro run
  induction ids generalizing memory with
  | nil => cases run
  | cons other rest inductionHypothesis =>
    rcases Action.bind_cases run with ⟨_, state, linked, restRun⟩ | ⟨_, failed, -⟩
    · rcases link_eq_ok linked with ⟨links, rfl, -⟩
      exact inductionHypothesis restRun
    · exact link_ne_error failed

/-- Recording succeeds if the store does not fail. -/
theorem record_ne_error {origin : Int} {dependencies : IdSet} {error : LinkError} :
    record origin dependencies (Faulty.mk memory []) ≠ (.error error, final) := by
  intro run
  rcases Action.mapError_eq_error_iff.mp run with ⟨_, failed, -⟩
  rcases Action.bind_cases failed with ⟨_, state, unlinked, added⟩ | ⟨_, unlinked, -⟩
  · rcases unlink_eq_ok unlinked with ⟨links, rfl, -⟩
    exact addAll_ne_error added
  · cases Faulty.guarded_eq_error unlinked

/-! ## Checking -/

theorem dependents_of_fails (fails : .dependents ∈ failing) (id : Int) :
    Store.dependents (Faulty.mk memory failing) id = .error (.missingRow id) :=
  if_pos fails

theorem downstreamOrder_of_fails (fails : .dependents ∈ failing) (origin : Int) :
    downstreamOrder (Faulty.mk memory failing) origin = .error (.missingRow origin) := by
  rw [downstreamOrder, dependents_of_fails fails origin]
  rfl

/-- What depends on an identity is found unless the looks at the links fail. -/
theorem downstreamOrder_cases (memory : Memory) (failing : List StoreMethod) (origin : Int) :
    (∃ order, downstreamOrder (Faulty.mk memory failing) origin = .ok order ∧ order.Nodup ∧
        ∀ id, id ∈ order ↔ DependsOn memory.linkList id origin) ∨ .dependents ∈ failing := by
  by_cases fails : .dependents ∈ failing
  · exact .inr fails
  · exact .inl ((memory.shows_links fails).exists_downstreamOrder origin)

/-- A store that shows its links finds the set of what depends on an identity. -/
theorem Shows.exists_downstream {σ : Type} [Store σ] {state : σ} {following : Int → List Int}
    {links : List Link} (shows : Shows state following links) (origin : Int) :
    ∃ dependents, downstream state origin = .ok dependents ∧
      ∀ id, id ∈ dependents ↔ DependsOn links id origin := by
  rcases shows.exists_downstreamOrder origin with ⟨order, found, -, mem_order⟩
  refine ⟨IdSet.ofList order, ?_, fun id => IdSet.mem_ofList.trans (mem_order id)⟩
  rw [downstream, found]
  rfl

/-- A store that shows its links passes those that lead neither to their origin nor to anything that
depends on it. Otherwise it names one of them that does. -/
theorem Shows.ensureAcyclic_cases {σ : Type} [Store σ] {state : σ} {following : Int → List Int}
    {links : List Link} (shows : Shows state following links) (origin : Int)
    (dependencies : IdSet) :
    (ensureAcyclic origin dependencies state = .ok () ∧
        ∀ id ∈ dependencies, id ≠ origin ∧ ¬DependsOn links id origin) ∨
      ∃ culprit ∈ dependencies, (culprit = origin ∨ DependsOn links culprit origin) ∧
        ensureAcyclic origin dependencies state = .error (.cycle culprit) := by
  rw [ensureAcyclic]
  by_cases self : origin ∈ dependencies
  · exact .inr ⟨origin, self, .inl rfl, by rw [if_pos self]; rfl⟩
  rw [if_neg self]
  by_cases empty : dependencies.toList = []
  · refine .inl ⟨by rw [if_pos empty]; rfl, fun id member => ?_⟩
    rw [IdSet.mem_def, empty] at member
    cases member
  rw [if_neg empty]
  rcases shows.exists_downstream origin with ⟨dependents, listed, mem_dependents⟩
  rw [listed]
  cases met : dependencies.toList.find? fun id => id ∈ dependents with
  | some culprit =>
    have isDependent := List.find?_some met
    rw [decide_eq_true_iff, mem_dependents] at isDependent
    refine .inr ⟨culprit, IdSet.mem_def.mpr (List.mem_of_find?_eq_some met), .inr isDependent, ?_⟩
    simp only [bind, Except.bind, met]
    rfl
  | none =>
    refine .inl ⟨?_, fun id member => ⟨fun same => self (same ▸ member), fun depends => ?_⟩⟩
    · simp only [bind, Except.bind, met]
      rfl
    · have absent := List.find?_eq_none.mp met id member
      rw [decide_eq_true_iff, mem_dependents] at absent
      exact absent depends

/-- Links that pass the check lead neither to their origin nor to anything that depends on it. -/
theorem independent_of_ensureAcyclic {origin : Int} {dependencies : IdSet}
    (passed : ensureAcyclic origin dependencies (Faulty.mk memory failing) = .ok ()) :
    ∀ id ∈ dependencies, id ≠ origin ∧ ¬DependsOn memory.linkList id origin := by
  by_cases fails : .dependents ∈ failing
  · -- Without a look at the links only the empty set passes.
    rw [ensureAcyclic] at passed
    split at passed
    · cases passed
    · split at passed
      · rename_i empty
        intro id member
        rw [IdSet.mem_def, empty] at member
        cases member
      · rw [downstream, downstreamOrder_of_fails fails origin] at passed
        cases passed
  · rcases (memory.shows_links fails).ensureAcyclic_cases origin dependencies with
      ⟨-, independent⟩ | ⟨culprit, -, -, refused⟩
    · exact independent
    · cases passed.symm.trans refused

/-! ## Marking -/

/-- The entries under some identities have been marked stale, and nothing else has changed. -/
structure Invalidated (which : Int → Prop) (before after : Memory) : Prop where
  linkList : after.linkList = before.linkList
  lastId : after.lastId = before.lastId
  within : ∀ id, which id →
    after.table.find? id = (before.table.find? id).map Entry.invalidated
  outside : ∀ id, ¬which id → after.table.find? id = before.table.find? id

theorem Invalidated.congr {which other : Int → Prop} {before after : Memory}
    (same : ∀ id, which id ↔ other id) (invalidated : Invalidated which before after) :
    Invalidated other before after where
  linkList := invalidated.linkList
  lastId := invalidated.lastId
  within id isOther := invalidated.within id ((same id).mpr isOther)
  outside id isNot := invalidated.outside id fun isWhich => isNot ((same id).mp isWhich)

/-- Marking changes no formula. -/
theorem Invalidated.formula {which : Int → Prop} {before after : Memory}
    (invalidated : Invalidated which before after) (id : Int) :
    (after.table.find? id).map (·.formula) = (before.table.find? id).map (·.formula) := by
  by_cases isWhich : which id
  · rw [invalidated.within id isWhich, Option.map_map]
    rfl
  · rw [invalidated.outside id isWhich]

theorem Invalidated.isSome_find? {which : Int → Prop} {before after : Memory}
    (invalidated : Invalidated which before after) (id : Int) :
    (after.table.find? id).isSome = (before.table.find? id).isSome := by
  have same := congrArg Option.isSome (invalidated.formula id)
  rwa [Option.isSome_map, Option.isSome_map] at same

/-- Marking one identity, and then others. -/
theorem Invalidated.cons {id : Int} {rest : List Int} {before middle after : Memory}
    (first : Invalidated (· = id) before middle) (others : Invalidated (· ∈ rest) middle after) :
    Invalidated (· ∈ id :: rest) before after where
  linkList := others.linkList.trans first.linkList
  lastId := others.lastId.trans first.lastId
  within other member := by
    by_cases inRest : other ∈ rest
    · rw [others.within other inRest]
      by_cases same : other = id
      · rw [first.within other same, Option.map_map]
        rfl
      · rw [first.outside other same]
    · have same : other = id := (List.mem_cons.mp member).resolve_right inRest
      rw [others.outside other inRest, first.within other same]
  outside other isNot := by
    rw [others.outside other fun inRest => isNot (List.mem_cons_of_mem id inRest),
      first.outside other fun same => isNot (same ▸ List.mem_cons_self)]

/-- Marking an entry does so and says whether there is one, unless entries cannot be looked up or
replaced. -/
theorem markStale_cases {id : Int} {outcome : Except StoreError Bool}
    (run : markStale id (Faulty.mk memory failing) = (outcome, final)) :
    (∃ after, outcome = .ok (memory.table.find? id).isSome ∧ final = ⟨after, failing⟩ ∧
        Invalidated (· = id) memory after) ∨
      ∃ error, outcome = .error error ∧ (.fetch ∈ failing ∨ .replace ∈ failing) := by
  rcases Action.bind_cases run with ⟨found, state, fetched, rest⟩ | ⟨error, fetched, rfl⟩
  · rcases Engine.fetchRow_cases fetched with ⟨rfl, ⟨-, found_eq⟩ | ⟨-, impossible⟩⟩
    · cases found_eq
      cases filed : memory.table.find? id with
      | none =>
        rw [filed] at rest
        cases rest
        refine .inl ⟨memory, rfl, rfl, rfl, rfl, ?_, fun _ _ => rfl⟩
        rintro _ rfl
        rw [filed]
        rfl
      | some entry =>
        rw [filed] at rest
        cases stale : entry.stale with
        | true =>
          simp only [stale] at rest
          cases rest
          refine .inl ⟨memory, rfl, rfl, rfl, rfl, ?_, fun _ _ => rfl⟩
          rintro _ rfl
          rw [filed, Option.map_some, Entry.invalidated, ← stale]
        | false =>
          simp only [stale] at rest
          change (Store.replace (entry.invalidated.withId id) >>= fun _ => pure true) _ = _ at rest
          rcases Action.bind_cases rest with ⟨_, state, replaced, last⟩ | ⟨error, replaced, rfl⟩
          · cases last
            rcases Engine.replace_cases replaced with ⟨-, -, -, rfl⟩ | ⟨impossible, -⟩
            · refine .inl ⟨_, rfl, rfl, rfl, rfl, ?_, fun other different =>
                Memory.find?_file_of_ne different⟩
              rintro _ rfl
              rw [Memory.find?_file_self, filed]
              rfl
            · cases impossible
          · rcases Engine.replace_cases replaced with ⟨impossible, -⟩ | ⟨-, -, fails | missing⟩
            · cases impossible
            · exact .inr ⟨error, rfl, .inr fails⟩
            · cases filed.symm.trans missing
    · cases impossible
  · rcases Engine.fetchRow_cases fetched with ⟨-, ⟨-, impossible⟩ | ⟨fails, -⟩⟩
    · cases impossible
    · exact .inr ⟨error, rfl, .inl fails⟩

/-- The identities under which something is filed. -/
def present (memory : Memory) (ids : List Int) : List Int :=
  ids.filter fun id => (memory.table.find? id).isSome

theorem Invalidated.present_eq {which : Int → Prop} {before after : Memory}
    (invalidated : Invalidated which before after) (ids : List Int) :
    present after ids = present before ids := by
  rw [present, present, funext invalidated.isSome_find?]

end Formulary.Links
