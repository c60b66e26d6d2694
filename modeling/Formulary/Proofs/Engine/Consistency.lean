import Formulary.Proofs.Engine.Change

/-!
# Consistent stores

The links of a reached store mirror its formulas, run in no circle, and carry staleness: what
depends on a stale or a missing entry is stale. Each change that an operation can make keeps this,
so it holds in every state that an engine can reach, whatever fails on the way.
-/

namespace Formulary.Engine

open Links

variable {evaluator : Formula.Evaluator} {memory before middle after : Memory} {id : Int}

/-! ## The invariant -/

/-- The links say what the formulas say, run in no circle, and stay within the identities handed
out. -/
structure WellLinked (memory : Memory) : Prop where
  linked : ∀ id entry, memory.table.find? id = some entry →
    ∃ ids, Formula.references entry.formula = .ok ids ∧
      ∀ other, ⟨id, other⟩ ∈ memory.linkList ↔ other ∈ ids
  filed : ∀ id other, ⟨id, other⟩ ∈ memory.linkList → memory.table.find? id ≠ none
  acyclic : Acyclic memory.linkList
  rowBounds : ∀ id, memory.table.find? id ≠ none → 1 ≤ id ∧ id ≤ memory.lastId
  linkBounds : ∀ id other, ⟨id, other⟩ ∈ memory.linkList →
    (1 ≤ id ∧ id ≤ memory.lastId) ∧ 1 ≤ other ∧ other ≤ memory.lastId
  lastId_nonneg : 0 ≤ memory.lastId

/-- Moreover, whatever a fresh entry refers to is filed and fresh. -/
structure Consistent (memory : Memory) : Prop extends WellLinked memory where
  fresh : ∀ id entry, memory.table.find? id = some entry → entry.stale = false →
    ∀ other, ⟨id, other⟩ ∈ memory.linkList →
      ∃ found, memory.table.find? other = some found ∧ found.stale = false

theorem consistent_empty : Consistent Memory.empty where
  linked _ _ filed := nomatch filed
  filed _ _ linked := nomatch linked
  acyclic id := by
    rintro ⟨_, path⟩
    cases path with
    | single linked => cases linked
    | step linked _ => cases linked
  rowBounds _ filed := absurd rfl filed
  linkBounds _ _ linked := nomatch linked
  lastId_nonneg := Int.le_refl 0
  fresh _ _ filed := nomatch filed

/-- A fresh entry depends on fresh entries only. -/
theorem Consistent.fresh_of_dependsOn (consistent : Consistent memory) {other : Int} {entry : Entry}
    (filed : memory.table.find? id = some entry) (fresh : entry.stale = false)
    (depends : DependsOn memory.linkList id other) :
    ∃ found, memory.table.find? other = some found ∧ found.stale = false := by
  rcases depends with ⟨length, path⟩
  induction path generalizing entry with
  | single linked => exact consistent.fresh _ _ filed fresh _ linked
  | step linked _ inductionHypothesis =>
    rcases consistent.fresh _ _ filed fresh _ linked with ⟨next, filedNext, freshNext⟩
    exact inductionHypothesis filedNext freshNext

/-! ## Formulas and links decide -/

/-- Stores with the same links and the same formulas are well linked together. -/
theorem WellLinked.congr (linked : WellLinked before) (sameLinks : after.linkList = before.linkList)
    (sameLast : after.lastId = before.lastId)
    (sameFormula : ∀ id, (after.table.find? id).map (·.formula) =
      (before.table.find? id).map (·.formula)) : WellLinked after := by
  have filed_iff : ∀ id, after.table.find? id = none ↔ before.table.find? id = none := fun id => by
    rw [← Option.map_eq_none_iff, sameFormula id, Option.map_eq_none_iff]
  constructor
  case linked =>
    intro id entry filed
    have same := sameFormula id
    rw [filed, Option.map_some, eq_comm, Option.map_eq_some_iff] at same
    rcases same with ⟨old, filedOld, formula_eq⟩
    rw [sameLinks, ← formula_eq]
    exact linked.linked id old filedOld
  case filed =>
    intro id other member
    rw [sameLinks] at member
    rw [Ne, filed_iff]
    exact linked.filed id other member
  case acyclic =>
    rw [sameLinks]
    exact linked.acyclic
  case rowBounds =>
    intro id filed
    rw [Ne, filed_iff] at filed
    rw [sameLast]
    exact linked.rowBounds id filed
  case linkBounds =>
    rw [sameLinks, sameLast]
    exact linked.linkBounds
  case lastId_nonneg =>
    rw [sameLast]
    exact linked.lastId_nonneg

theorem Renewal.formula (renewal : Renewal evaluator id before after) (other : Int) :
    (after.table.find? other).map (·.formula) = (before.table.find? other).map (·.formula) := by
  rcases renewal with ⟨filed, _⟩
  rw [Memory.find?_file]
  split
  · rename_i same
    rw [same, filed]
    rfl
  · rfl

theorem Renewal.linkList_eq (renewal : Renewal evaluator id before after) :
    after.linkList = before.linkList := by
  rcases renewal with ⟨_, _⟩
  rfl

theorem Renewal.lastId_eq (renewal : Renewal evaluator id before after) :
    after.lastId = before.lastId := by
  rcases renewal with ⟨_, _⟩
  rfl

/-! ## Renewals -/

/-- A renewal makes an entry fresh whose references are all fresh. -/
theorem Consistent.renewal (consistent : Consistent before)
    (renewal : Renewal evaluator id before after) : Consistent after := by
  refine ⟨consistent.toWellLinked.congr renewal.linkList_eq renewal.lastId_eq renewal.formula, ?_⟩
  obtain @⟨renewed, evaluated, filed, evaluates⟩ := renewal
  -- What was fresh is fresh still, and the entry itself has become so.
  have stillFresh : ∀ {other : Int} {found : Entry}, before.table.find? other = some found →
      found.stale = false →
        ∃ found, (before.file id ⟨renewed.formula, evaluated.result, false⟩).table.find? other =
          some found ∧ found.stale = false := by
    intro other found filedOther fresh
    by_cases same : other = id
    · exact ⟨_, (Memory.find?_file _ _ _ _).trans (if_pos same), rfl⟩
    · exact ⟨found, (Memory.find?_file_of_ne same).trans filedOther, fresh⟩
  intro source entry filedSource fresh other linked
  by_cases same : source = id
  · subst same
    rcases consistent.linked source _ filed with ⟨ids, references, mem_ids⟩
    have ids_eq := (Formula.dependencies_eq_ok_iff.mp evaluates.dependencies).1
    cases references.symm.trans ids_eq
    rcases evaluates.fresh ((mem_ids other).mp linked) with ⟨found, filedOther, freshOther⟩
    exact stillFresh filedOther freshOther
  · rw [Memory.find?_file_of_ne same] at filedSource
    obtain ⟨found, filedOther, freshOther⟩ :=
      consistent.fresh source entry filedSource fresh other linked
    exact stillFresh filedOther freshOther

theorem Consistent.renewals (consistent : Consistent before)
    (renewals : Renewals evaluator before after) : Consistent after := by
  induction renewals with
  | refl => exact consistent
  | tail _ _ _ renewal inductionHypothesis => exact inductionHypothesis.renewal renewal

/-! ## Marks -/

/-- After everything that depends on an identity has been marked, what is fresh refers to fresh
entries only, even if that identity itself is not. -/
theorem WellLinked.consistent_of_invalidated {origin : Int} (linked : WellLinked before)
    (almostFresh : ∀ id entry, before.table.find? id = some entry → entry.stale = false →
      ∀ other, ⟨id, other⟩ ∈ before.linkList →
        other = origin ∨ ∃ found, before.table.find? other = some found ∧ found.stale = false)
    (invalidated : Invalidated (DependsOn before.linkList · origin) before after) :
    Consistent after := by
  refine ⟨linked.congr invalidated.linkList invalidated.lastId invalidated.formula, ?_⟩
  intro id entry filed fresh other linkedTo
  rw [invalidated.linkList] at linkedTo
  have independent : ¬DependsOn before.linkList id origin := by
    intro depends
    rw [invalidated.within id depends, Option.map_eq_some_iff] at filed
    rcases filed with ⟨_, -, rfl⟩
    cases fresh
  rw [invalidated.outside id independent] at filed
  have otherIndependent : other ≠ origin ∧ ¬DependsOn before.linkList other origin :=
    ⟨fun same => independent (same ▸ .of_mem linkedTo),
      fun depends => independent ((DependsOn.of_mem linkedTo).trans depends)⟩
  rcases almostFresh id entry filed fresh other linkedTo with same | ⟨found, filedOther, freshOther⟩
  · exact absurd same otherIndependent.1
  · exact ⟨found, (invalidated.outside other otherIndependent.2).trans filedOther, freshOther⟩

/-! ## Changes -/

/-- Filing an entry whose references are fresh, under a new identity or in place of another, and
linking it to them. -/
theorem Consistent.file {formula : List Char} {self : Option Int} {evaluated : Evaluated}
    {links : List Link} {lastId : Int} (consistent : Consistent before)
    (evaluates : Evaluates evaluator before formula self evaluated)
    (relinked : Relinked id (· ∈ evaluated.dependencies) before.linkList links)
    (acyclic : Acyclic links) (bounds : 1 ≤ id ∧ id ≤ lastId) (later : before.lastId ≤ lastId) :
    Consistent ⟨before.table.insert id ⟨formula, evaluated.result, false⟩, links, lastId⟩ := by
  have find?_eq : ∀ other, (before.table.insert id ⟨formula, evaluated.result, false⟩).find? other =
      if other = id then some ⟨formula, evaluated.result, false⟩ else before.table.find? other :=
    fun other => Table.find?_insert _ _ _ _
  have stillFresh : ∀ {other : Int} {found : Entry}, before.table.find? other = some found →
      found.stale = false →
        ∃ found, (before.table.insert id ⟨formula, evaluated.result, false⟩).find? other =
          some found ∧ found.stale = false := by
    intro other found filed fresh
    rw [find?_eq]
    split
    · exact ⟨_, rfl, rfl⟩
    · exact ⟨found, filed, fresh⟩
  constructor
  case toWellLinked =>
    constructor
    case linked =>
      intro source entry filed
      rw [find?_eq] at filed
      split at filed
      · rename_i same
        subst same
        cases filed
        refine ⟨_, (Formula.dependencies_eq_ok_iff.mp evaluates.dependencies).1, fun other => ?_⟩
        rw [relinked]
        simp
      · rename_i different
        rcases consistent.linked source entry filed with ⟨ids, references, mem_ids⟩
        refine ⟨ids, references, fun other => ?_⟩
        rw [relinked, ← mem_ids]
        simp [different]
    case filed =>
      intro source other linked
      rw [find?_eq]
      split
      · exact nofun
      · rename_i different
        rcases (relinked _ _).mp linked with ⟨same, -⟩ | ⟨-, old⟩
        · exact absurd same different
        · exact consistent.filed source other old
    case acyclic => exact acyclic
    case rowBounds =>
      intro source filed
      rw [find?_eq] at filed
      split at filed
      · rename_i same
        exact same ▸ bounds
      · rcases consistent.rowBounds source filed with ⟨lower, upper⟩
        exact ⟨lower, Int.le_trans upper later⟩
    case linkBounds =>
      intro source other linked
      rcases (relinked _ _).mp linked with ⟨rfl, member⟩ | ⟨-, old⟩
      · rcases evaluates.fresh member with ⟨found, filed, -⟩
        rcases consistent.rowBounds other (filed ▸ nofun) with ⟨lower, upper⟩
        exact ⟨bounds, lower, Int.le_trans upper later⟩
      · rcases consistent.linkBounds source other old with ⟨⟨lower, upper⟩, lowerOther, upperOther⟩
        exact ⟨⟨lower, Int.le_trans upper later⟩, lowerOther, Int.le_trans upperOther later⟩
    case lastId_nonneg => exact Int.le_trans consistent.lastId_nonneg later
  case fresh =>
    intro source entry filed fresh other linked
    rcases (relinked _ _).mp linked with ⟨-, member⟩ | ⟨different, old⟩
    · rcases evaluates.fresh member with ⟨found, filedOther, freshOther⟩
      exact stillFresh filedOther freshOther
    · rw [find?_eq, if_neg different] at filed
      obtain ⟨found, filedOther, freshOther⟩ := consistent.fresh source entry filed fresh other old
      exact stillFresh filedOther freshOther

/-- Taking an entry and its links away leaves links that mirror the formulas. -/
theorem WellLinked.erase {links : List Link} (linked : WellLinked before)
    (relinked : Relinked id (fun _ => False) before.linkList links) :
    WellLinked ⟨before.table.erase id, links, before.lastId⟩ := by
  have find?_eq : ∀ other, (before.table.erase id).find? other =
      if other = id then none else before.table.find? other := fun other => Table.find?_erase _ _ _
  have old : ∀ {source other : Int}, ⟨source, other⟩ ∈ links →
      source ≠ id ∧ ⟨source, other⟩ ∈ before.linkList := fun member =>
    ((relinked _ _).mp member).resolve_left fun absurdity => absurdity.2
  constructor
  case linked =>
    intro source entry filed
    rw [find?_eq] at filed
    split at filed
    · cases filed
    · rename_i different
      rcases linked.linked source entry filed with ⟨ids, references, mem_ids⟩
      refine ⟨ids, references, fun other => ?_⟩
      rw [relinked, ← mem_ids]
      simp [different]
  case filed =>
    intro source other member
    rw [find?_eq, if_neg (old member).1]
    exact linked.filed source other (old member).2
  case acyclic => exact relinked.acyclic linked.acyclic fun _ => False.elim
  case rowBounds =>
    intro source filed
    rw [find?_eq] at filed
    split at filed
    · exact absurd rfl filed
    · exact linked.rowBounds source filed
  case linkBounds => exact fun source other member => linked.linkBounds source other (old member).2
  case lastId_nonneg => exact linked.lastId_nonneg

/-- Every change keeps a store consistent. -/
theorem Consistent.change (consistent : Consistent before)
    (change : Change evaluator before after) : Consistent after := by
  cases change with
  | unchanged => exact consistent
  | @created raw formula evaluated links canonical evaluates relinked =>
    have nonneg := consistent.lastId_nonneg
    -- Nothing is linked to an identity that has not been handed out.
    have unlinked : ∀ other, ¬DependsOn before.linkList other (before.lastId + 1) := by
      intro other depends
      rcases depends.exists_last with ⟨last, linked⟩
      have := (consistent.linkBounds _ _ linked).2
      omega
    have independent : ∀ other ∈ evaluated.dependencies,
        other ≠ before.lastId + 1 ∧ ¬DependsOn before.linkList other (before.lastId + 1) := by
      intro other member
      rcases evaluates.fresh member with ⟨found, filed, -⟩
      have := consistent.rowBounds other (filed ▸ nofun)
      constructor
      · omega
      · exact unlinked other
    have acyclic := relinked.acyclic consistent.acyclic independent
    exact consistent.file evaluates relinked acyclic (by omega) (by omega)
  | @rewritten id old raw formula evaluated links after filed canonical evaluates independent
      relinked invalidated =>
    have acyclic := relinked.acyclic consistent.acyclic independent
    have bounds := consistent.rowBounds id (filed ▸ nofun)
    have refiled := consistent.file evaluates relinked acyclic bounds (Int.le_refl _)
    apply refiled.toWellLinked.consistent_of_invalidated _ invalidated
    intro source entry filed fresh other linked
    exact .inr (refiled.fresh source entry filed fresh other linked)
  | @deleted id old links after filed relinked invalidated =>
    apply (consistent.toWellLinked.erase relinked).consistent_of_invalidated _ invalidated
    intro source entry filed fresh other linked
    obtain ⟨different, linked⟩ :=
      ((relinked _ _).mp linked).resolve_left fun absurdity => absurdity.2
    rw [Table.find?_erase, if_neg different] at filed
    by_cases same : other = id
    · exact .inl same
    · obtain ⟨found, filedOther, freshOther⟩ :=
        consistent.fresh source entry filed fresh other linked
      exact .inr ⟨found, by rw [Table.find?_erase, if_neg same, filedOther], freshOther⟩
  | recalculated renewal => exact consistent.renewal renewal
  | moved renewal invalidated =>
    have renewed := consistent.renewal renewal
    rw [← renewal.linkList_eq] at invalidated
    apply renewed.toWellLinked.consistent_of_invalidated _ invalidated
    intro source entry filed fresh other linked
    exact .inr (renewed.fresh source entry filed fresh other linked)

/-! ## Reached states -/

theorem Consistent.changes (consistent : Consistent before)
    (changes : Changes evaluator before after) : Consistent after := by
  rcases changes with ⟨middle, renewals, change⟩
  exact (consistent.renewals renewals).change change

variable {allowed : EngineSettings → Prop} {mayFail : List StoreMethod → Prop}

/-- Operations lead from consistent stores to consistent stores. -/
theorem Consistent.of_leads (consistent : Consistent before)
    (leads : Leads allowed mayFail before after) : Consistent after := by
  induction leads with
  | refl => exact consistent
  | tail _ operation settings failing _ _ inductionHypothesis =>
    exact inductionHypothesis.changes
      (run_changes inductionHypothesis.acyclic operation settings failing)

/-- The store that operations leave which are carried out one after the other under the same
settings, each with its own failures of the store. -/
def runAll (settings : EngineSettings) :
    List (Operation × List StoreMethod) → Memory → Memory
  | [], memory => memory
  | (operation, failing) :: rest, memory =>
    runAll settings rest (operation.runFailing settings failing memory).2

theorem leads_runAll {settings : EngineSettings} (isAllowed : allowed settings)
    (anyFail : ∀ failing, mayFail failing) (steps : List (Operation × List StoreMethod))
    (memory : Memory) : Leads allowed mayFail memory (runAll settings steps memory) := by
  induction steps generalizing memory with
  | nil => exact .refl memory
  | cons step rest inductionHypothesis =>
    exact .trans (.tail (.refl memory) step.1 settings step.2 isAllowed (anyFail _))
      (inductionHypothesis _)

/-- A store with a stale entry, whose reference was changed. Changing the entry itself failed. -/
def changedStore : Memory :=
  runAll {}
    [(.create "5".toList, []), (.create "\x7b1\x7d+1".toList, []), (.update 1 "7".toList, []),
      (.update 2 "6".toList, [.link, .replace])] Memory.empty

/-- The store after the reference was deleted too. -/
def deletedStore : Memory :=
  runAll {} [(.delete 1, [])] changedStore

/-- In every state that an engine can reach, under any settings and with any failures of the store,
the links mirror the formulas and run in no circle, fresh entries refer to fresh entries, and
whatever depends on something stale or missing is stale. -/
theorem reached_consistent (reached : Reached allowed mayFail memory) :
    Consistent memory ∧
      ∀ id other, DependsOn memory.linkList id other →
        (∀ found, memory.table.find? other = some found → found.stale = true) →
          ∀ entry, memory.table.find? id = some entry → entry.stale = true := by
  have consistent := consistent_empty.of_leads reached
  refine ⟨consistent, fun id other depends stale entry filed => ?_⟩
  by_contra fresh
  obtain ⟨found, filedOther, freshOther⟩ :=
    consistent.fresh_of_dependsOn filed (Bool.eq_false_iff.mpr fresh) depends
  exact nomatch (stale found filedOther).symm.trans freshOther

theorem reached_consistent_deletedStore :
    Reached (fun _ => True) (fun _ => True) deletedStore ∧ Consistent deletedStore ∧
      DependsOn deletedStore.linkList 2 1 ∧ deletedStore.table.find? 1 = none ∧
        ∃ entry, deletedStore.table.find? 2 = some entry ∧ entry.stale = true := by
  have reached : Reached (fun _ => True) (fun _ => True) deletedStore :=
    .trans (leads_runAll trivial (fun _ => trivial) _ _)
      (leads_runAll trivial (fun _ => trivial) _ _)
  have depends : DependsOn deletedStore.linkList 2 1 := .of_mem (by decide +kernel)
  have absent : deletedStore.table.find? 1 = none :=
    Option.isNone_iff_eq_none.mp (by decide +kernel)
  have present : (deletedStore.table.find? 2).isSome = true := by decide +kernel
  rcases Option.isSome_iff_exists.mp present with ⟨entry, filed⟩
  rcases reached_consistent reached with ⟨consistent, carried⟩
  have stale := carried 2 1 depends (fun _ found => nomatch absent.symm.trans found) entry filed
  exact ⟨reached, consistent, depends, absent, entry, filed, stale⟩

end Formulary.Engine
