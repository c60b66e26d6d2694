import Formulary.Proofs.Engine.Consistency
import Formulary.Proofs.Engine.FailedWrite

/-!
# References keep their targets

Identities are handed out in ascending order, and what has been deleted does not come back: no later
operation files anything under its identity. So a formula never gets to refer to something else than
what it was written for, and everything whose markers lead to a deleted calculation stays stale and
cannot be read, whatever is done and whatever fails later.
-/

namespace Formulary.Engine

open Links

variable {evaluator : Formula.Evaluator} {settings : EngineSettings}
  {memory before middle after : Memory} {failing : List StoreMethod} {final : Faulty Memory}
  {id other : Int} {raw : List Char}

/-! ## Identities over time -/

/-- No identity has been taken back, and none that was handed out and has no entry has got one. -/
structure Onward (before after : Memory) : Prop where
  lastId_le : before.lastId ≤ after.lastId
  absent : ∀ id, id ≤ before.lastId → before.table.find? id = none → after.table.find? id = none

theorem Onward.refl (memory : Memory) : Onward memory memory :=
  ⟨Int.le_refl _, fun _ _ absent => absent⟩

theorem Onward.trans (first : Onward before middle) (second : Onward middle after) :
    Onward before after where
  lastId_le := Int.le_trans first.lastId_le second.lastId_le
  absent id handedOut absent :=
    second.absent id (Int.le_trans handedOut first.lastId_le) (first.absent id handedOut absent)

theorem find?_eq_none_of_formula
    (sameFormula : (after.table.find? id).map (·.formula) = (before.table.find? id).map (·.formula))
    (absent : before.table.find? id = none) : after.table.find? id = none := by
  rwa [absent, Option.map_none, Option.map_eq_none_iff] at sameFormula

theorem Onward.of_formula (sameLast : after.lastId = before.lastId)
    (sameFormula : ∀ id, (after.table.find? id).map (·.formula) =
      (before.table.find? id).map (·.formula)) : Onward before after where
  lastId_le := Int.le_of_eq sameLast.symm
  absent id _ absent := find?_eq_none_of_formula (sameFormula id) absent

theorem Renewals.onward (renewals : Renewals evaluator before after) : Onward before after :=
  .of_formula renewals.refreshed.lastId renewals.refreshed.formula

theorem Renewal.onward (renewal : Renewal evaluator id before after) : Onward before after :=
  .of_formula renewal.lastId_eq renewal.formula

theorem Onward.invalidated {which : Int → Prop} (invalidated : Invalidated which before after) :
    Onward before after :=
  .of_formula invalidated.lastId invalidated.formula

/-- No change takes an identity back or revives one. -/
theorem Change.onward (change : Change evaluator before after) : Onward before after := by
  cases change with
  | unchanged => exact .refl before
  | created _ _ _ =>
    constructor
    case lastId_le => exact Int.le_of_lt (Int.lt_succ _)
    case absent =>
      intro id handedOut absent
      have different : id ≠ before.lastId + 1 := by omega
      rw [Table.find?_insert, if_neg different, absent]
  | rewritten filed _ _ _ _ invalidated =>
    apply Onward.trans _ (.invalidated invalidated)
    constructor
    case lastId_le => exact Int.le_refl _
    case absent =>
      intro id _ absent
      rw [← absent]
      apply Memory.find?_file_of_ne
      rintro rfl
      cases absent.symm.trans filed
  | deleted _ _ invalidated =>
    apply Onward.trans _ (.invalidated invalidated)
    constructor
    case lastId_le => exact Int.le_refl _
    case absent =>
      intro id _ absent
      rw [Table.find?_erase, absent, ite_self]
  | recalculated renewal => exact renewal.onward
  | moved renewal invalidated => exact renewal.onward.trans (.invalidated invalidated)

theorem run_onward (consistent : Consistent memory) (operation : Operation)
    (settings : EngineSettings) (failing : List StoreMethod) :
    Onward memory (operation.runFailing settings failing memory).2 := by
  rcases run_changes consistent.acyclic operation settings failing with ⟨middle, renewals, change⟩
  exact renewals.onward.trans change.onward

variable {allowed : EngineSettings → Prop} {mayFail : List StoreMethod → Prop}

theorem Leads.onward (consistent : Consistent before) (leads : Leads allowed mayFail before after) :
    Onward before after := by
  induction leads with
  | refl => exact .refl before
  | tail first operation settings failing _ _ inductionHypothesis =>
    exact inductionHypothesis.trans
      (run_onward (consistent.of_leads first) operation settings failing)

/-! ## What a success means -/

/-- An operation answers where its step answers, and leaves what the step leaves. -/
theorem step_of_ok {α : Type} {step : Action (Faulty Memory) Failure α} {answer : α → Answer}
    {state : Faulty Memory} {answered : Answer}
    (run : (step >>= fun result => pure (answer result)) state = (.ok answered, final)) :
    ∃ result, step state = (.ok result, final) ∧ answered = answer result := by
  rcases Action.bind_eq_ok_iff.mp run with ⟨result, _, stepped, last⟩
  cases last
  exact ⟨result, stepped, rfl⟩

/-- What has been created stands under the next identity, which is now the last one. -/
theorem create_eq_ok {calculation : Calculation}
    (run : create settings raw ⟨memory, failing⟩ = (.ok calculation, final)) :
    calculation.id = some (memory.lastId + 1) ∧ final.inner.lastId = memory.lastId + 1 := by
  rcases Action.bind_eq_ok_iff.mp run with ⟨formula, state, spelled, rest⟩
  rcases Action.ofExcept_mapError_eq_ok_iff.mp spelled with ⟨-, rfl⟩
  rcases Action.bind_eq_ok_iff.mp rest with ⟨evaluated, state, evaluation, rest⟩
  rcases evaluate_renews evaluation with ⟨middle, rfl, renewals, -⟩
  rcases Action.bind_eq_ok_iff.mp rest with ⟨id, state, filed, last⟩
  cases last
  rcases Action.atomically_cases filed with ⟨_, same, filing⟩ | ⟨_, impossible, -⟩
  · cases same
    rcases filing_eq_ok filing with ⟨rfl, links, rfl, -⟩
    rw [← renewals.refreshed.lastId]
    exact ⟨rfl, rfl⟩
  · cases impossible

theorem exists_created
    (answers : ((Operation.create raw).runFailing settings failing memory).1.isOk = true) :
    ∃ calculation after, (Operation.create raw).runFailing settings failing memory =
      (.ok (.calculation calculation), after) := by
  match run : (Operation.create raw).runFailing settings failing memory with
  | (.ok answer, after) =>
    rcases runFailing_eq run with ⟨final, stepped, -⟩
    rcases step_of_ok stepped with ⟨calculation, -, rfl⟩
    exact ⟨calculation, after, rfl⟩
  | (.error failure, after) =>
    rw [run] at answers
    cases answers

/-- What has been deleted was there, and is no longer. -/
theorem delete_eq_ok (run : delete id (Faulty.mk memory failing) = (.ok (), final)) :
    memory.table.find? id ≠ none ∧ final.inner.table.find? id = none := by
  rcases Action.bind_eq_ok_iff.mp run with ⟨entry, state, found, removal⟩
  rcases filed_of_existing found with ⟨rfl, filed⟩
  rcases Action.atomically_cases removal with ⟨_, same, removing⟩ | ⟨_, impossible, -⟩
  · rcases removing_eq_ok removing with ⟨links, after, rfl, -, invalidated⟩
    constructor
    · rw [filed]
      exact Option.some_ne_none entry
    · apply find?_eq_none_of_formula (invalidated.formula id)
      rw [Table.find?_erase, if_pos rfl]
  · cases impossible

/-! ## What leads to something missing -/

/-- The markers of the formula under the first identity lead to the second, directly or through
other filed formulas. -/
inductive MarkersLead (memory : Memory) : Int → Int → Prop where
  | direct {id other : Int} {entry : Entry} {ids : IdSet} :
      memory.table.find? id = some entry → Formula.references entry.formula = .ok ids →
        other ∈ ids → MarkersLead memory id other
  | through {id next other : Int} {entry : Entry} {ids : IdSet} :
      memory.table.find? id = some entry → Formula.references entry.formula = .ok ids →
        next ∈ ids → MarkersLead memory next other → MarkersLead memory id other

theorem MarkersLead.exists_entry (lead : MarkersLead memory id other) :
    ∃ entry, memory.table.find? id = some entry := by
  cases lead with
  | direct filed | through filed => exact ⟨_, filed⟩

theorem WellLinked.mem_linkList (linked : WellLinked memory) {entry : Entry} {ids : IdSet}
    (filed : memory.table.find? id = some entry)
    (found : Formula.references entry.formula = .ok ids) (member : other ∈ ids) :
    ⟨id, other⟩ ∈ memory.linkList := by
  rcases linked.linked id entry filed with ⟨_, found', mem_ids⟩
  cases found.symm.trans found'
  exact (mem_ids other).mpr member

/-- Where markers lead, links lead. -/
theorem MarkersLead.dependsOn (linked : WellLinked memory) (lead : MarkersLead memory id other) :
    DependsOn memory.linkList id other := by
  induction lead with
  | direct filed found member => exact .of_mem (linked.mem_linkList filed found member)
  | through filed found member _ inductionHypothesis =>
    exact (DependsOn.of_mem (linked.mem_linkList filed found member)).trans inductionHypothesis

/-- What depends on something missing is not answered by a reading, which would have made it
fresh. -/
theorem read_ne_ok (consistent : Consistent memory) (depends : DependsOn memory.linkList id other)
    (absent : memory.table.find? other = none) {calculation : Calculation} :
    read settings id (Faulty.mk memory failing) ≠ (.ok calculation, final) := by
  intro run
  rcases read_renews settings run with ⟨after, rfl, renewals, -, answers⟩
  rcases answers calculation rfl with ⟨entry, filed, fresh, -⟩
  rw [← renewals.refreshed.linkList] at depends
  rcases (consistent.renewals renewals).fresh_of_dependsOn filed fresh depends with
    ⟨found, filedOther, -⟩
  cases (renewals.refreshed.eq_none_iff.mpr absent).symm.trans filedOther

/-- What depends on something missing cannot be evaluated anew, which would need everything that it
refers to to be fresh. -/
theorem recalculate_ne_ok (consistent : Consistent memory)
    (depends : DependsOn memory.linkList id other) (absent : memory.table.find? other = none)
    {calculation : Calculation} :
    recalculate settings id (Faulty.mk memory failing) ≠ (.ok calculation, final) := by
  intro run
  rcases Action.bind_eq_ok_iff.mp run with ⟨entry, state, found, rest⟩
  rcases filed_of_existing found with ⟨rfl, filed⟩
  rcases Action.bind_eq_ok_iff.mp rest with ⟨refreshed, state, renewed, -⟩
  rcases refreshWithin_renews settings settings.maxDepth [] filed renewed with
    ⟨middle, renewals, -, ⟨_, impossible, -⟩ | ⟨evaluated, evaluates, -, -, filedStill, -, -⟩⟩
  · cases impossible
  · have missing := renewals.refreshed.eq_none_iff.mpr absent
    have consistentMiddle := consistent.renewals renewals
    rw [← renewals.refreshed.linkList] at depends
    rcases dependsOn_iff.mp depends with ⟨next, linked, reaches⟩
    rcases consistentMiddle.linked id entry filedStill with ⟨ids, references, mem_ids⟩
    cases references.symm.trans (Formula.dependencies_eq_ok_iff.mp evaluates.dependencies).1
    rcases evaluates.fresh ((mem_ids next).mp linked) with ⟨found, filedNext, fresh⟩
    rcases reaches with rfl | later
    · cases missing.symm.trans filedNext
    · rcases consistentMiddle.fresh_of_dependsOn filedNext fresh later with ⟨_, filedOther, -⟩
      cases missing.symm.trans filedOther

/-- The calculation is stale, and no attempt to read it or to evaluate it anew is answered, under
any settings and whatever operations of the store fail. -/
structure Unreadable (memory : Memory) (id : Int) : Prop where
  stale : ∃ entry, memory.table.find? id = some entry ∧ entry.stale = true
  read : ∀ settings failing answer,
    ((Operation.read id).runFailing settings failing memory).1 ≠ .ok answer
  recalculate : ∀ settings failing answer,
    ((Operation.recalculate id).runFailing settings failing memory).1 ≠ .ok answer

/-- What leads to something missing is unreadable. -/
theorem Consistent.unreadable (consistent : Consistent memory) (lead : MarkersLead memory id other)
    (absent : memory.table.find? other = none) : Unreadable memory id := by
  have depends := lead.dependsOn consistent.toWellLinked
  constructor
  case stale =>
    rcases lead.exists_entry with ⟨entry, filed⟩
    refine ⟨entry, filed, ?_⟩
    by_contra fresh
    rcases consistent.fresh_of_dependsOn filed (Bool.eq_false_iff.mpr fresh) depends with
      ⟨found, filedOther, -⟩
    cases absent.symm.trans filedOther
  case read =>
    intro settings failing answer answered
    rcases runFailing_eq (Prod.ext answered rfl) with ⟨final, run, -⟩
    rcases step_of_ok run with ⟨calculation, ran, -⟩
    exact read_ne_ok consistent depends absent ran
  case recalculate =>
    intro settings failing answer answered
    rcases runFailing_eq (Prod.ext answered rfl) with ⟨final, run, -⟩
    rcases step_of_ok run with ⟨calculation, ran, -⟩
    exact recalculate_ne_ok consistent depends absent ran

/-! ## Reached states -/

/-- In every run, whatever fails on the way: of two calculations the one that is created later has
the greater identity, and after a deletion there is never again anything under its identity, while
everything whose markers lead to it is unreadable. -/
theorem references_keep_targets (reached : Reached allowed mayFail memory) :
    (∀ settings raw failing calculation after,
        (Operation.create raw).runFailing settings failing memory =
            (.ok (.calculation calculation), after) →
          ∀ later, Leads allowed mayFail after later →
            ∀ settings raw failing next last,
              (Operation.create raw).runFailing settings failing later =
                  (.ok (.calculation next), last) →
                ∃ first second, calculation.id = some first ∧ next.id = some second ∧
                  first < second) ∧
      ∀ id settings failing answer after,
        (Operation.delete id).runFailing settings failing memory = (.ok answer, after) →
          ∀ later, Leads allowed mayFail after later →
            later.table.find? id = none ∧
              ∀ row, MarkersLead later row id → Unreadable later row := by
  have consistent := consistent_empty.of_leads reached
  have consistentAfter : ∀ operation settings failing,
      Consistent (Operation.runFailing operation settings failing memory).2 :=
    fun operation settings failing =>
      consistent.changes (run_changes consistent.acyclic operation settings failing)
  constructor
  · intro settings raw failing calculation after created later leads settings' raw' failing' next
      last createdLater
    have consistentCreated := consistentAfter (.create raw) settings failing
    rw [created] at consistentCreated
    rcases runFailing_eq created with ⟨final, run, rfl⟩
    rcases step_of_ok run with ⟨_, ran, same⟩
    cases same
    rcases runFailing_eq createdLater with ⟨finalLater, runLater, -⟩
    rcases step_of_ok runLater with ⟨_, ranLater, same⟩
    cases same
    rcases create_eq_ok ran with ⟨id_eq, lastId_eq⟩
    have onward : final.inner.lastId ≤ later.lastId := (leads.onward consistentCreated).lastId_le
    exact ⟨_, _, id_eq, (create_eq_ok ranLater).1, by omega⟩
  · intro id settings failing answer after deleted later leads
    have consistentDeleted := consistentAfter (.delete id) settings failing
    have onward := run_onward consistent (.delete id) settings failing
    rw [deleted] at consistentDeleted onward
    rcases runFailing_eq deleted with ⟨final, run, rfl⟩
    rcases step_of_ok run with ⟨_, ran, -⟩
    rcases delete_eq_ok ran with ⟨present, absent⟩
    have handedOut : id ≤ final.inner.lastId :=
      Int.le_trans (consistent.rowBounds id present).2 onward.lastId_le
    have gone := (leads.onward consistentDeleted).absent id handedOut absent
    exact ⟨gone, fun row lead => (consistentDeleted.of_leads leads).unreadable lead gone⟩

/-- The store after more was done with it, some of which failed. -/
def continuedStore : Memory :=
  runAll {}
    [(.create "3".toList, []), (.create "\x7b1\x7d".toList, []),
      (.update 2 "\x7b1\x7d+\x7b3\x7d".toList, [.dependents]), (.recalculate 2, [.replace])]
    deletedStore

theorem markersLead_continuedStore : MarkersLead continuedStore 2 1 := by
  have formula : (continuedStore.table.find? 2).map (·.formula) = some "\x7b1\x7d+1".toList := by
    decide +kernel
  have references : (Formula.references "\x7b1\x7d+1".toList).map (·.toList) = .ok [1] := by
    decide +kernel
  rcases Option.map_eq_some_iff.mp formula with ⟨entry, filed, formula_eq⟩
  rw [← formula_eq] at references
  cases found : Formula.references entry.formula with
  | error fault =>
    rw [found] at references
    cases references
  | ok ids =>
    rw [found] at references
    have listed : ids.toList = [1] := Except.ok.inj references
    refine .direct filed found (IdSet.mem_def.mpr ?_)
    rw [listed]
    exact List.mem_singleton_self 1

/-- The identity of the deleted calculation stays unused, and what refers to it stays unreadable. -/
theorem references_keep_targets_continuedStore :
    Reached (fun _ => True) (fun _ => True) changedStore ∧
      (∃ calculation after next last first second,
        (Operation.create "4".toList).runFailing {} [] changedStore =
            (.ok (.calculation calculation), after) ∧
          (Operation.create "5".toList).runFailing {} [] after =
              (.ok (.calculation next), last) ∧
            calculation.id = some first ∧ next.id = some second ∧ first < second) ∧
        ((Operation.delete 1).runFailing {} [] changedStore).1.isOk = true ∧
          continuedStore.table.find? 1 = none ∧ MarkersLead continuedStore 2 1 ∧
            Unreadable continuedStore 2 := by
  have reached : Reached (fun _ => True) (fun _ => True) changedStore :=
    leads_runAll trivial (fun _ => trivial) _ _
  rcases references_keep_targets reached with ⟨ascending, broken⟩
  refine ⟨reached, ?_, by decide +kernel, ?_⟩
  · have answers : ((Operation.create "4".toList).runFailing {} [] changedStore).1.isOk = true := by
      decide +kernel
    have answersNext : ((Operation.create "5".toList).runFailing {} []
        ((Operation.create "4".toList).runFailing {} [] changedStore).2).1.isOk = true := by
      decide +kernel
    rcases exists_created answers with ⟨calculation, after, created⟩
    rw [created] at answersNext
    rcases exists_created answersNext with ⟨next, last, createdNext⟩
    rcases ascending _ _ _ _ _ created after (.refl after) _ _ _ _ _ createdNext with
      ⟨first, second, first_eq, second_eq, less⟩
    exact ⟨calculation, after, next, last, first, second, created, createdNext, first_eq, second_eq,
      less⟩
  · have continues : Leads (fun _ => True) (fun _ => True)
        ((Operation.delete 1).runFailing {} [] changedStore).2 continuedStore :=
      leads_runAll trivial (fun _ => trivial) _ _
    have answers : ((Operation.delete 1).runFailing {} [] changedStore).1.isOk = true := by
      decide +kernel
    match run : (Operation.delete 1).runFailing {} [] changedStore with
    | (.error failure, after) =>
      rw [run] at answers
      cases answers
    | (.ok answer, after) =>
      rw [run] at continues
      rcases broken 1 {} [] answer after run continuedStore continues with ⟨gone, unreadable⟩
      have lead := markersLead_continuedStore
      exact ⟨gone, lead, unreadable 2 lead⟩

end Formulary.Engine
