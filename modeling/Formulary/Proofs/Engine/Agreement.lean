import Formulary.Proofs.Engine.Failures
import Formulary.Proofs.Engine.Interference
import Formulary.Proofs.Engine.Recalculation
import Formulary.Proofs.Store.Lookup

/-!
# Recalculating is reading

As long as the evaluator stays the same, recalculating does what reading does. A fresh entry is
evaluated to the value that it has, so nothing is filed that is not there already; and what depends
on a stale entry is stale already, so the marks that follow a changed value change nothing.
-/

namespace Formulary.Engine

open Links

variable {settings : EngineSettings} {memory after : Memory} {failing : List StoreMethod}
  {final : Faulty Memory} {id other : Int} {entry : Entry}

/-! ## Fresh entries -/

/-- What a fresh entry refers to is fresh. -/
theorem Consistent.isFresh_of_names (consistent : Consistent memory)
    (filed : memory.table.find? id = some entry) (fresh : entry.stale = false)
    (names : Formula.Names entry.formula other) : IsFresh memory other :=
  consistent.fresh id entry filed fresh other
    (consistent.toWellLinked.mem_of_refersTo ⟨entry, filed, names⟩)

theorem StaleChain.isStale {length : Nat} (chain : StaleChain memory id length) :
    IsStale memory id := by
  cases chain with
  | single filed stale => exact ⟨_, filed, stale⟩
  | step filed stale => exact ⟨_, filed, stale⟩

/-- Evaluating the formula of a fresh entry gives the value that is filed and changes nothing. -/
theorem evaluateWith_of_fresh (levels : Nat) (consistent : Consistent memory)
    (trusted : Trusted settings.evaluator memory) (filed : memory.table.find? id = some entry)
    (fresh : entry.stale = false) :
    ∃ evaluated, evaluateWith settings.evaluator (readWith (refreshWithin settings levels [id]))
        entry.formula (some id) (Faulty.mk memory []) = (.ok evaluated, ⟨memory, []⟩) ∧
      evaluated.result = entry.result := by
  have reads := (refreshWithin_renews settings levels [id]).readWith
  have truly := (refreshWithin_truly settings levels [id]).readWith
  have touches := touchesExposed_refreshWithin settings levels [id]
  rcases run : evaluateWith settings.evaluator (readWith (refreshWithin settings levels [id]))
    entry.formula (some id) (Faulty.mk memory []) with ⟨outcome, final⟩
  rcases reads.evaluateWith run with ⟨after, rfl, renewals, -, -⟩
  have unchanged : after = memory := by
    apply Memory.eq_of_find? _ renewals.refreshed.linkList renewals.refreshed.lastId
    intro other
    apply (touches.evaluateWith reads run other).resolve_right
    rintro ⟨next, names, exposed⟩
    exact (consistent.isFresh_of_names filed fresh names).not_isStale exposed.root_isStale
  subst unchanged
  have value : outcome.map (·.result) = .ok entry.result := by
    apply FromScratch.unique _ (trusted id entry filed fresh)
    apply (truly.evaluateWith reads consistent trusted filed run).resolve_right
    rintro ⟨failure, -, ids, references, next, member, obstructed⟩
    have names := (Formula.mem_references_iff references).mp member
    rcases obstructed with ⟨-, length, -, chain⟩ | ⟨met, inChain, -, reaches⟩
    · exact (consistent.isFresh_of_names filed fresh names).not_isStale chain.isStale
    · rw [List.mem_singleton] at inChain
      subst inChain
      have link := DependsOn.of_mem
        (consistent.toWellLinked.mem_of_refersTo ⟨entry, filed, names⟩)
      rcases reaches with rfl | depends
      · exact consistent.acyclic _ link
      · exact consistent.acyclic _ (link.trans depends)
  cases outcome with
  | error failure => cases value
  | ok evaluated => exact ⟨evaluated, rfl, Except.ok.inj value⟩

theorem refresh_of_fresh (consistent : Consistent memory)
    (trusted : Trusted settings.evaluator memory) (positive : 1 ≤ settings.maxDepth)
    (filed : memory.table.find? id = some entry) (fresh : entry.stale = false) :
    refresh settings id entry (Faulty.mk memory []) = (.ok (entry.withId id), ⟨memory, []⟩) := by
  obtain ⟨levels, depth_eq⟩ := Nat.exists_eq_add_of_le' positive
  rcases evaluateWith_of_fresh levels consistent trusted filed fresh with
    ⟨evaluated, evaluation, result_eq⟩
  have present : memory.table.find? id ≠ none := filed ▸ nofun
  have entry_eq : { entry with result := evaluated.result, stale := false } = entry := by
    rw [result_eq, ← fresh]
  rw [refresh, depth_eq, refreshWithin, if_neg List.not_mem_nil, Action.bind_of_ok evaluation,
    entry_eq, Action.bind_of_ok (replace_of_filed present entry), Memory.file_eq_self filed]
  rfl

/-- Recalculating a fresh entry answers what is filed and changes nothing. -/
theorem recalculate_of_fresh (consistent : Consistent memory)
    (trusted : Trusted settings.evaluator memory) (positive : 1 ≤ settings.maxDepth)
    (filed : memory.table.find? id = some entry) (fresh : entry.stale = false) :
    recalculate settings id (Faulty.mk memory []) =
      (.ok (entry.withId id), ⟨memory, []⟩) := by
  rw [recalculate, Action.bind_of_ok (existing_of_filed filed),
    Action.bind_of_ok (refresh_of_fresh consistent trusted positive filed fresh)]
  simp [Entry.withId]

/-! ## Stale and missing entries -/

/-- A cascade from an entry whose dependents are all stale changes nothing. -/
theorem cascade_of_dependentsStale (acyclic : Acyclic memory.linkList)
    (stale : DependentsStale memory id) :
    ∃ reached, cascade id (Faulty.mk memory []) = (.ok reached, ⟨memory, []⟩) := by
  rcases Action.exists_ok_of_ne_error fun _ _ => cascade_ne_error acyclic with
    ⟨reached, final, run⟩
  rcases cascade_eq_ok run with ⟨after, rfl, invalidated⟩
  have unchanged : after = memory := by
    apply Memory.eq_of_find? _ invalidated.linkList invalidated.lastId
    intro other
    by_cases depends : DependsOn memory.linkList other id
    · rw [invalidated.within other depends]
      cases filed : memory.table.find? other with
      | none => rfl
      | some entry => rw [Option.map_some, Entry.invalidated, ← stale other entry depends filed]
    · exact invalidated.outside other depends
  rw [unchanged] at run
  exact ⟨reached, run⟩

/-- Evaluating an entry anew changes no link, however it ends. -/
theorem linkList_of_refresh {outcome : Except Failure Calculation}
    (filed : memory.table.find? id = some entry)
    (run : refresh settings id entry (Faulty.mk memory failing) = (outcome, final)) :
    ∃ after, final = ⟨after, failing⟩ ∧ after.linkList = memory.linkList := by
  obtain ⟨middle, renewals, -, ⟨_, -, rfl⟩ | ⟨_, -, -, -, -, -, rfl⟩⟩ :=
    refreshWithin_renews settings settings.maxDepth [] filed run
  · exact ⟨middle, rfl, renewals.refreshed.linkList⟩
  · exact ⟨_, rfl, renewals.refreshed.linkList⟩

/-- Evaluating a stale entry anew leaves everything stale that depends on it. -/
theorem dependentsStale_of_refresh {outcome : Except Failure Calculation}
    (consistent : Consistent memory) (filed : memory.table.find? id = some entry)
    (stale : entry.stale = true)
    (run : refresh settings id entry (Faulty.mk memory failing) = (outcome, ⟨after, failing⟩)) :
    DependentsStale after id := by
  have within := (refreshWithin_withinExposed settings settings.maxDepth [] filed stale run).within
    consistent.toWellLinked
  rcases linkList_of_refresh filed run with ⟨_, same, sameLinks⟩
  cases same
  intro other found depends filedOther
  rw [sameLinks] at depends
  have independent : ¬DependsOn memory.linkList id other := fun back =>
    consistent.acyclic id (back.trans depends)
  rw [within other (consistent.acyclic.ne_of_dependsOn depends) independent] at filedOther
  by_contra fresh
  rcases consistent.fresh_of_dependsOn filedOther (Bool.eq_false_iff.mpr fresh) depends with
    ⟨_, filedAgain, isFresh⟩
  cases filed.symm.trans filedAgain
  cases stale.symm.trans isFresh

/-- Recalculating a stale entry is reading it: the marks that may follow are all there already. -/
theorem recalculate_of_stale (consistent : Consistent memory)
    (filed : memory.table.find? id = some entry) (stale : entry.stale = true) :
    recalculate settings id (Faulty.mk memory []) =
      Engine.read settings id (Faulty.mk memory []) := by
  rw [recalculate, Engine.read, readWith, Action.bind_of_ok (existing_of_filed filed),
    Action.bind_of_ok (existing_of_filed filed), if_pos stale]
  rcases run : refresh settings id entry (Faulty.mk memory []) with ⟨failure | calculation, final⟩
  · rw [Action.bind_of_error run]
  · rw [Action.bind_of_ok run]
    rcases linkList_of_refresh filed run with ⟨after, rfl, sameLinks⟩
    have acyclic : Acyclic after.linkList := by
      rw [sameLinks]
      exact consistent.acyclic
    rcases cascade_of_dependentsStale acyclic
      (dependentsStale_of_refresh consistent filed stale run) with ⟨reached, cascaded⟩
    split
    · rw [Action.bind_of_ok cascaded]
      rfl
    · rfl

theorem recalculate_of_absent (absent : memory.table.find? id = none) :
    recalculate settings id (Faulty.mk memory []) =
      Engine.read settings id (Faulty.mk memory []) := by
  obtain ⟨same, ⟨-, _, filed, -⟩ | ⟨-, -, failed⟩ | ⟨fails, -⟩⟩ :=
    existing_cases (rfl : existing id (Faulty.mk memory []) = _)
  · cases absent.symm.trans filed
  · have missing : existing id (Faulty.mk memory []) = (.error (.notFound id), ⟨memory, []⟩) :=
      Prod.ext failed same
    rw [recalculate, Engine.read, readWith, Action.bind_of_error missing,
      Action.bind_of_error missing]
  · cases fails

/-! ## Reached states -/

/-- In every state that an engine can reach under one policy and one nesting limit, recalculating
ends as reading does and leaves the same store, if one entry may be evaluated at all. Recalculating
a fresh entry changes nothing, and so marks nothing. -/
theorem recalculate_eq_read {mayFail : List StoreMethod → Prop}
    (reached : Reached (fun earlier => earlier.evaluator = settings.evaluator) mayFail memory)
    (positive : 1 ≤ settings.maxDepth) (id : Int) :
    recalculate settings id memory = Engine.read settings id memory ∧
      ∀ entry, memory.table.find? id = some entry → entry.stale = false →
        recalculate settings id memory = (.ok (entry.withId id), memory) := by
  have consistent := consistent_empty.of_leads reached
  have trusted := trusted_empty.of_leads (fun _ same => same) consistent_empty reached
  have ofFresh : ∀ {entry : Entry}, memory.table.find? id = some entry → entry.stale = false →
      recalculate settings id (Faulty.mk memory []) = (.ok (entry.withId id), ⟨memory, []⟩) :=
    recalculate_of_fresh consistent trusted positive
  have same : recalculate settings id (Faulty.mk memory []) =
      Engine.read settings id (Faulty.mk memory []) := by
    cases filed : memory.table.find? id with
    | none => exact recalculate_of_absent filed
    | some entry =>
      cases stale : entry.stale with
      | true => exact recalculate_of_stale consistent filed stale
      | false => rw [ofFresh filed stale, Engine.read, readWith_of_fresh filed stale]
  rw [recalculate_mirrors, read_mirrors] at same
  constructor
  · exact mirrored_iff.mp same
  · intro entry filed fresh
    have unchanged := ofFresh filed fresh
    rw [recalculate_mirrors] at unchanged
    exact mirrored_iff.mp unchanged

/-- Recalculating the stale entry evaluates it as a reading would, and recalculating the fresh one
does nothing. -/
theorem recalculate_eq_read_changedStore :
    Reached (fun earlier => earlier.evaluator = EngineSettings.evaluator {}) (fun _ => True)
        changedStore ∧
      1 ≤ EngineSettings.maxDepth {} ∧
        (recalculate {} 2 changedStore = Engine.read {} 2 changedStore ∧
          (recalculate {} 2 changedStore).1.map (·.result) = .ok 8) ∧
          ∃ entry, changedStore.table.find? 1 = some entry ∧ entry.result = 7 ∧
            recalculate {} 1 changedStore = (.ok (entry.withId 1), changedStore) := by
  have reached : Reached (fun earlier => earlier.evaluator = EngineSettings.evaluator {})
      (fun _ => True) changedStore := by
    apply leads_runAll
    · rfl
    · exact fun _ => trivial
  have positive : 1 ≤ EngineSettings.maxDepth {} := by decide
  have answered : (recalculate {} 2 changedStore).1.map (·.result) = .ok 8 := by decide +kernel
  have shown : (changedStore.table.find? 1).map (fun entry => (entry.result, entry.stale)) =
      some (7, false) := by decide +kernel
  rcases Option.map_eq_some_iff.mp shown with ⟨entry, filed, shown_eq⟩
  rcases Prod.mk.inj shown_eq with ⟨result_eq, fresh⟩
  have unchanged := (recalculate_eq_read reached positive 1).2 entry filed fresh
  exact ⟨reached, positive, ⟨(recalculate_eq_read reached positive 2).1, answered⟩, entry, filed,
    result_eq, unchanged⟩

end Formulary.Engine
