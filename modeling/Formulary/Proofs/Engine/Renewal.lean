import Formulary.Proofs.Formula.Reference
import Formulary.Proofs.Store.Memory

/-!
# Renewed entries

What reading does to a store in memory. One renewal evaluates one entry anew, by the fresh values
filed for what it refers to, and files its value; a reading is a row of renewals of stale entries.
The main statement, `refreshWithin_renews`, says so of any store content and whatever operations of
the store fail.
-/

namespace Formulary.Engine

variable {evaluator : Formula.Evaluator} {memory before middle after : Memory}
  {failing : List StoreMethod}

/-! ## Renewals -/

/-- These values are filed and fresh. -/
def FreshValues (memory : Memory) (values : List (Int × Float)) : Prop :=
  ∀ id value, (id, value) ∈ values →
    ∃ entry, memory.table.find? id = some entry ∧ entry.stale = false ∧ entry.result = value

/-- A formula has this value by the fresh values filed for what it refers to. -/
def Evaluates (evaluator : Formula.Evaluator) (memory : Memory) (formula : List Char)
    (self : Option Int) (evaluated : Evaluated) : Prop :=
  ∃ values : List (Int × Float), values.map Prod.fst = evaluated.dependencies.toList ∧
    FreshValues memory values ∧
      recompute evaluator formula self (Table.ofList values) = .ok evaluated

/-- The entry under an identity has been evaluated anew. -/
inductive Renewal (evaluator : Formula.Evaluator) (id : Int) (memory : Memory) : Memory → Prop where
  | renew {entry : Entry} {evaluated : Evaluated} :
      memory.table.find? id = some entry →
        Evaluates evaluator memory entry.formula (some id) evaluated →
          Renewal evaluator id memory (memory.file id ⟨entry.formula, evaluated.result, false⟩)

/-- Stale entries have been evaluated anew, one after the other. -/
inductive Renewals (evaluator : Formula.Evaluator) (memory : Memory) : Memory → Prop where
  | refl : Renewals evaluator memory memory
  | tail {middle after : Memory} {id : Int} {entry : Entry} :
      Renewals evaluator memory middle → middle.table.find? id = some entry → entry.stale = true →
        Renewal evaluator id middle after → Renewals evaluator memory after

theorem Renewals.trans (first : Renewals evaluator before middle)
    (second : Renewals evaluator middle after) : Renewals evaluator before after := by
  induction second with
  | refl => exact first
  | tail _ filed stale renewal inductionHypothesis =>
    exact .tail inductionHypothesis filed stale renewal

theorem Evaluates.dependencies {formula : List Char} {self : Option Int} {evaluated : Evaluated}
    (evaluates : Evaluates evaluator memory formula self evaluated) :
    Formula.dependencies formula self = .ok evaluated.dependencies := by
  rcases evaluates with ⟨_, _, _, recomputed⟩
  exact dependencies_of_recompute recomputed

/-- Whatever an evaluated formula refers to is filed and fresh. -/
theorem Evaluates.fresh {formula : List Char} {self : Option Int} {evaluated : Evaluated}
    (evaluates : Evaluates evaluator memory formula self evaluated) {id : Int}
    (member : id ∈ evaluated.dependencies) :
    ∃ entry, memory.table.find? id = some entry ∧ entry.stale = false := by
  rcases evaluates with ⟨values, ids_eq, fresh, _⟩
  rw [IdSet.mem_def, ← ids_eq] at member
  rcases List.mem_map.mp member with ⟨⟨_, value⟩, inValues, rfl⟩
  rcases fresh _ value inValues with ⟨entry, filed, isFresh, -⟩
  exact ⟨entry, filed, isFresh⟩

/-! ## What renewals leave alone -/

/-- Nothing has changed but that stale entries may have become fresh, with their old formulas. -/
structure Refreshed (before after : Memory) : Prop where
  linkList : after.linkList = before.linkList
  lastId : after.lastId = before.lastId
  entry : ∀ id, after.table.find? id = before.table.find? id ∨
    ∃ old result, before.table.find? id = some old ∧ old.stale = true ∧
      after.table.find? id = some ⟨old.formula, result, false⟩

theorem Refreshed.refl (memory : Memory) : Refreshed memory memory :=
  ⟨rfl, rfl, fun _ => .inl rfl⟩

theorem Refreshed.trans (first : Refreshed before middle) (second : Refreshed middle after) :
    Refreshed before after where
  linkList := second.linkList.trans first.linkList
  lastId := second.lastId.trans first.lastId
  entry id := by
    rcases second.entry id with same | ⟨old, result, filed, stale, renewed⟩
    · rw [same]
      exact first.entry id
    · rcases first.entry id with same | ⟨_, _, _, _, renewedBefore⟩
      · exact .inr ⟨old, result, same ▸ filed, stale, renewed⟩
      · cases renewedBefore.symm.trans filed
        cases stale

/-- A fresh entry stays as it is. -/
theorem Refreshed.fresh (refreshed : Refreshed before after) {id : Int} {entry : Entry}
    (filed : before.table.find? id = some entry) (fresh : entry.stale = false) :
    after.table.find? id = some entry := by
  rcases refreshed.entry id with same | ⟨old, _, filedOld, stale, _⟩
  · rw [same, filed]
  · cases filedOld.symm.trans filed
    cases fresh.symm.trans stale

/-- The same identities have entries, with the same formulas. -/
theorem Refreshed.formula (refreshed : Refreshed before after) (id : Int) :
    (after.table.find? id).map (·.formula) = (before.table.find? id).map (·.formula) := by
  rcases refreshed.entry id with same | ⟨old, result, filed, -, renewed⟩
  · rw [same]
  · rw [filed, renewed]
    rfl

theorem Refreshed.eq_none_iff (refreshed : Refreshed before after) {id : Int} :
    after.table.find? id = none ↔ before.table.find? id = none := by
  rw [← Option.map_eq_none_iff, refreshed.formula id, Option.map_eq_none_iff]

/-- What is stale afterwards was stale, and is what it was. -/
theorem Refreshed.stale (refreshed : Refreshed before after) {id : Int} {entry : Entry}
    (filed : after.table.find? id = some entry) (stale : entry.stale = true) :
    before.table.find? id = some entry := by
  rcases refreshed.entry id with same | ⟨_, _, _, _, renewed⟩
  · rw [← same, filed]
  · cases renewed.symm.trans filed
    cases stale

theorem Renewals.refreshed (renewals : Renewals evaluator before after) :
    Refreshed before after := by
  induction renewals with
  | refl => exact .refl before
  | @tail middle after id entry _ filed stale renewal inductionHypothesis =>
    apply inductionHypothesis.trans
    rcases renewal with ⟨filedAgain, _⟩
    cases filed.symm.trans filedAgain
    refine ⟨rfl, rfl, fun other => ?_⟩
    by_cases same : other = id
    · subst same
      exact .inr ⟨entry, _, filed, stale, Memory.find?_file_self _ _ _⟩
    · exact .inl (Memory.find?_file_of_ne same)

/-! ## Reading -/

/-- Reading answers what is filed and fresh, evaluates anew what is filed and stale, and fails where
looking for an entry fails. -/
theorem readWith_cases {refresh : Int → Entry → Action (Faulty Memory) Failure Calculation}
    {id : Int} {outcome : Except Failure Calculation} {final : Faulty Memory}
    (run : readWith refresh id ⟨memory, failing⟩ = (outcome, final)) :
    (∃ entry, memory.table.find? id = some entry ∧
        ((entry.stale = false ∧ outcome = .ok (entry.withId id) ∧ final = ⟨memory, failing⟩) ∨
          (entry.stale = true ∧ refresh id entry ⟨memory, failing⟩ = (outcome, final)))) ∨
      ∃ failure, existing id (Faulty.mk memory failing) = (.error failure, ⟨memory, failing⟩) ∧
        outcome = .error failure ∧ final = ⟨memory, failing⟩ := by
  rcases Action.bind_cases run with ⟨entry, state, found, rest⟩ | ⟨failure, found, rfl⟩
  · rcases filed_of_existing found with ⟨rfl, filed⟩
    refine .inl ⟨entry, filed, ?_⟩
    cases stale : entry.stale with
    | false =>
      rw [stale] at rest
      cases rest
      exact .inl ⟨rfl, rfl, rfl⟩
    | true =>
      rw [stale] at rest
      exact .inr ⟨rfl, rest⟩
  · rcases existing_cases found with ⟨rfl, -⟩
    exact .inr ⟨failure, found, rfl, rfl⟩

/-- With a level left, an entry is evaluated anew by readings that have one level less, unless it is
being evaluated already; its value is filed then, unless that fails. -/
theorem refreshWithin_succ_cases {settings : EngineSettings} {levels : Nat} {chain : List Int}
    {id : Int} {entry : Entry} {outcome : Except Failure Calculation} {final : Faulty Memory}
    (run : refreshWithin settings (levels + 1) chain id entry (Faulty.mk memory failing) =
      (outcome, final)) :
    (id ∈ chain ∧ outcome = .error (.links (.cycle id)) ∧ final = ⟨memory, failing⟩) ∨
      (id ∉ chain ∧ ∃ result middle,
        evaluateWith settings.evaluator (readWith (refreshWithin settings levels (id :: chain)))
            entry.formula (some id) ⟨memory, failing⟩ = (result, middle) ∧
          ((∃ failure, result = .error failure ∧ outcome = .error failure ∧ final = middle) ∨
            ∃ evaluated, result = .ok evaluated ∧
              ((.replace ∉ middle.failing ∧
                  outcome = .ok (Entry.withId ⟨entry.formula, evaluated.result, false⟩ id) ∧
                  final = ⟨middle.inner.file id ⟨entry.formula, evaluated.result, false⟩,
                    middle.failing⟩) ∨
                (outcome = .error (.store (.missingRow id)) ∧ final = middle ∧
                  (.replace ∈ middle.failing ∨ middle.inner.table.find? id = none))))) := by
  rw [refreshWithin] at run
  split at run
  · rename_i met
    cases run
    exact .inl ⟨met, rfl, rfl⟩
  · rename_i foreign
    refine .inr ⟨foreign, ?_⟩
    rcases Action.bind_cases run with
      ⟨evaluated, middle, evaluation, rest⟩ | ⟨failure, evaluation, rfl⟩
    · refine ⟨_, middle, evaluation, .inr ⟨evaluated, rfl, ?_⟩⟩
      rcases Action.bind_cases rest with ⟨_, state, replaced, last⟩ | ⟨failure, replaced, rfl⟩
      · cases last
        obtain ⟨-, works, -, rfl⟩ | ⟨impossible, -⟩ :=
          replace_cases (Action.mapError_eq_ok_iff.mp replaced)
        · exact .inl ⟨works, rfl, rfl⟩
        · cases impossible
      · rcases Action.mapError_eq_error_iff.mp replaced with ⟨_, failed, rfl⟩
        obtain ⟨impossible, -⟩ | ⟨same, rfl, why⟩ := replace_cases failed
        · cases impossible
        · cases same
          exact .inr ⟨rfl, rfl, why⟩
    · exact ⟨_, _, evaluation, .inl ⟨failure, rfl, rfl, rfl⟩⟩

/-- What a way of reading does while some calculations are being evaluated: it renews entries, but
none of those, and what it answers is filed and fresh. -/
def Reads (evaluator : Formula.Evaluator) (chain : List Int)
    (read : Int → Action (Faulty Memory) Failure Calculation) : Prop :=
  ∀ ⦃id : Int⦄ ⦃memory : Memory⦄ ⦃failing : List StoreMethod⦄
    ⦃outcome : Except Failure Calculation⦄ ⦃final : Faulty Memory⦄,
    read id ⟨memory, failing⟩ = (outcome, final) →
      ∃ after, final = ⟨after, failing⟩ ∧ Renewals evaluator memory after ∧
        (∀ other ∈ chain, after.table.find? other = memory.table.find? other) ∧
          ∀ calculation, outcome = .ok calculation →
            ∃ entry, after.table.find? id = some entry ∧ entry.stale = false ∧
              calculation = entry.withId id

/-- What evaluating an entry anew does while some calculations are being evaluated: it renews other
entries, and then the entry itself if it answers. -/
def Refreshes (evaluator : Formula.Evaluator) (chain : List Int)
    (refresh : Int → Entry → Action (Faulty Memory) Failure Calculation) : Prop :=
  ∀ ⦃id : Int⦄ ⦃entry : Entry⦄ ⦃memory : Memory⦄ ⦃failing : List StoreMethod⦄
    ⦃outcome : Except Failure Calculation⦄ ⦃final : Faulty Memory⦄,
    memory.table.find? id = some entry →
      refresh id entry ⟨memory, failing⟩ = (outcome, final) →
        ∃ middle, Renewals evaluator memory middle ∧
          (∀ other ∈ id :: chain, middle.table.find? other = memory.table.find? other) ∧
            ((∃ failure, outcome = .error failure ∧ final = ⟨middle, failing⟩) ∨
              ∃ evaluated, Evaluates evaluator middle entry.formula (some id) evaluated ∧
                id ∉ chain ∧ .replace ∉ failing ∧ middle.table.find? id = some entry ∧
                outcome = .ok (Entry.withId ⟨entry.formula, evaluated.result, false⟩ id) ∧
                final = ⟨middle.file id ⟨entry.formula, evaluated.result, false⟩, failing⟩)

variable {chain : List Int}

/-- Values are asked for by readings one after the other, and are all fresh in the end. -/
theorem Reads.fetchAll {read : Int → Action (Faulty Memory) Failure Calculation}
    (reads : Reads evaluator chain read) {ids : List Int}
    {outcome : Except Failure (List (Int × Float))} {final : Faulty Memory}
    (run : Formula.fetchAll (fun id => do return (← read id).result) ids ⟨memory, failing⟩ =
      (outcome, final)) :
    ∃ after, final = ⟨after, failing⟩ ∧ Renewals evaluator memory after ∧
      (∀ other ∈ chain, after.table.find? other = memory.table.find? other) ∧
        ∀ values, outcome = .ok values → values.map Prod.fst = ids ∧ FreshValues after values := by
  induction ids generalizing memory outcome final with
  | nil =>
    cases run
    refine ⟨memory, rfl, .refl, fun _ _ => rfl, fun values answered => ?_⟩
    cases answered
    exact ⟨rfl, fun _ _ member => nomatch member⟩
  | cons id rest inductionHypothesis =>
    rcases Action.bind_cases run with ⟨value, state, readRun, restRun⟩ | ⟨failure, readRun, rfl⟩
    · rcases Action.bind_eq_ok_iff.mp readRun with ⟨calculation, state', readOne, valueRun⟩
      obtain ⟨rfl, rfl⟩ : calculation.result = value ∧ state' = state := by
        simpa using valueRun
      rcases reads readOne with ⟨middle, rfl, firstRenewals, keptFirst, answered⟩
      rcases answered calculation rfl with ⟨entry, filed, fresh, rfl⟩
      rcases Action.bind_cases restRun with
        ⟨others, state, others_eq, last⟩ | ⟨failure, others_eq, rfl⟩
      · rcases inductionHypothesis others_eq with ⟨after, rfl, restRenewals, keptRest, all⟩
        cases last
        refine ⟨after, rfl, firstRenewals.trans restRenewals,
          fun other member => (keptRest other member).trans (keptFirst other member), ?_⟩
        intro values answered
        cases answered
        rcases all others rfl with ⟨ids_eq, restFresh⟩
        refine ⟨by simp [ids_eq], fun other value member => ?_⟩
        rcases List.mem_cons.mp member with same | inRest
        · cases same
          exact ⟨entry, restRenewals.refreshed.fresh filed fresh, fresh, rfl⟩
        · exact restFresh other value inRest
      · rcases inductionHypothesis others_eq with ⟨after, rfl, restRenewals, keptRest, -⟩
        exact ⟨after, rfl, firstRenewals.trans restRenewals,
          fun other member => (keptRest other member).trans (keptFirst other member), nofun⟩
    · rcases Action.bind_cases readRun with ⟨calculation, state, -, impossible⟩ | ⟨_, readOne, -⟩
      · cases impossible
      · rcases reads readOne with ⟨after, rfl, renewals, kept, -⟩
        exact ⟨after, rfl, renewals, kept, nofun⟩

/-- Evaluating a formula by readings renews entries, and the value it answers is the one by the
fresh values filed in the end. -/
theorem Reads.evaluateWith {read : Int → Action (Faulty Memory) Failure Calculation}
    (reads : Reads evaluator chain read) {formula : List Char} {self : Option Int}
    {outcome : Except Failure Evaluated} {final : Faulty Memory}
    (run : evaluateWith evaluator read formula self ⟨memory, failing⟩ = (outcome, final)) :
    ∃ after, final = ⟨after, failing⟩ ∧ Renewals evaluator memory after ∧
      (∀ other ∈ chain, after.table.find? other = memory.table.find? other) ∧
        ∀ evaluated, outcome = .ok evaluated →
          Evaluates evaluator after formula self evaluated := by
  rcases Action.bind_cases run with ⟨ids, state, found, rest⟩ | ⟨failure, found, rfl⟩
  · rcases Prod.mk.inj found with ⟨sound, rfl⟩
    rcases Action.bind_cases rest with ⟨values, state, fetched, last⟩ | ⟨failure, fetched, rfl⟩
    · rcases reads.fetchAll fetched with ⟨after, rfl, renewals, kept, all⟩
      rcases all values rfl with ⟨ids_eq, fresh⟩
      cases last
      refine ⟨after, rfl, renewals, kept, fun evaluated recomputed => ?_⟩
      refine ⟨values, ?_, fresh, recomputed⟩
      rw [ids_eq]
      have sameIds := dependencies_of_recompute recomputed
      match Formula.dependencies formula self, sound, sameIds with
      | .ok _, sound, sameIds =>
        rw [← Except.ok.inj sound, Except.ok.inj sameIds]
    · rcases reads.fetchAll fetched with ⟨after, rfl, renewals, kept, -⟩
      exact ⟨after, rfl, renewals, kept, nofun⟩
  · rcases Prod.mk.inj found with ⟨-, rfl⟩
    exact ⟨memory, rfl, .refl, fun _ _ => rfl, nofun⟩

theorem Reads.fetchAll_eq_error {read : Int → Action (Faulty Memory) Failure Calculation}
    (reads : Reads evaluator chain read) {ids : List Int}
    {failure : Failure} {final : Faulty Memory}
    (run : Formula.fetchAll (fun id => do return (← read id).result) ids ⟨memory, failing⟩ =
      (.error failure, final)) :
    ∃ id ∈ ids, ∃ middle, Renewals evaluator memory middle ∧
      read id ⟨middle, failing⟩ = (.error failure, final) := by
  induction ids generalizing memory with
  | nil => cases run
  | cons id rest inductionHypothesis =>
    rcases Action.bind_cases run with ⟨value, state, readRun, restRun⟩ | ⟨cause, readRun, same⟩
    · rcases Action.bind_eq_ok_iff.mp readRun with ⟨calculation, state', readOne, valueRun⟩
      cases valueRun
      rcases reads readOne with ⟨middle, rfl, renewals, -, -⟩
      rcases Action.bind_cases restRun with ⟨_, _, _, impossible⟩ | ⟨cause, failed, same⟩
      · cases impossible
      · cases same
        rcases inductionHypothesis failed with ⟨other, inRest, later, laterRenewals, readOther⟩
        exact ⟨other, List.mem_cons_of_mem id inRest, later, renewals.trans laterRenewals,
          readOther⟩
    · cases same
      rcases Action.bind_cases readRun with ⟨_, _, _, impossible⟩ | ⟨cause, failed, same⟩
      · cases impossible
      · cases same
        exact ⟨id, List.mem_cons_self, memory, .refl, failed⟩

/-- Evaluating a formula by readings fails because its references are not sound, because one of them
could not be read after some renewals, or because it has no value by what was read. -/
theorem Reads.evaluateWith_eq_error {read : Int → Action (Faulty Memory) Failure Calculation}
    (reads : Reads evaluator chain read) {formula : List Char} {self : Option Int}
    {failure : Failure} {final : Faulty Memory}
    (run : Engine.evaluateWith evaluator read formula self ⟨memory, failing⟩ =
      (.error failure, final)) :
    (∃ fault, Formula.dependencies formula self = .error fault ∧ failure = .formula fault) ∨
      ∃ ids, Formula.dependencies formula self = .ok ids ∧
        ((∃ id ∈ ids, ∃ middle, Renewals evaluator memory middle ∧
            read id ⟨middle, failing⟩ = (.error failure, final)) ∨
          ∃ values : List (Int × Float), values.map Prod.fst = ids.toList ∧
            recompute evaluator formula self (Table.ofList values) = .error failure) := by
  rcases Action.bind_cases run with ⟨ids, state, found, rest⟩ | ⟨cause, refused, same⟩
  · rcases Action.ofExcept_mapError_eq_ok_iff.mp found with ⟨sound, rfl⟩
    rcases Action.bind_cases rest with ⟨values, state, fetched, last⟩ | ⟨cause, fetched, same⟩
    · rcases reads.fetchAll fetched with ⟨after, rfl, -, -, all⟩
      rcases Prod.mk.inj last with ⟨recomputed, -⟩
      exact .inr ⟨ids, sound, .inr ⟨values, (all values rfl).1, recomputed⟩⟩
    · cases same
      rcases reads.fetchAll_eq_error fetched with ⟨id, member, middle, renewals, failed⟩
      exact .inr ⟨ids, sound, .inl ⟨id, IdSet.mem_def.mpr member, middle, renewals, failed⟩⟩
  · cases same
    rcases Action.ofExcept_mapError_eq_error_iff.mp refused with ⟨fault, failed, rfl, -⟩
    exact .inl ⟨fault, failed, rfl⟩

/-- Reading a calculation evaluates it anew if it is stale. -/
theorem Refreshes.readWith {refresh : Int → Entry → Action (Faulty Memory) Failure Calculation}
    (refreshes : Refreshes evaluator chain refresh) : Reads evaluator chain (readWith refresh) := by
  intro id memory failing outcome final run
  rcases readWith_cases run with
    ⟨entry, filed, ⟨fresh, rfl, rfl⟩ | ⟨stale, renewed⟩⟩ | ⟨failure, -, rfl, rfl⟩
  · refine ⟨memory, rfl, .refl, fun _ _ => rfl, fun calculation answered => ?_⟩
    exact ⟨entry, filed, fresh, (Except.ok.inj answered).symm⟩
  · obtain ⟨middle, renewals, kept, ⟨failure, rfl, rfl⟩ | ⟨evaluated, evaluates, foreign, -,
      filedStill, rfl, rfl⟩⟩ := refreshes filed renewed
    · exact ⟨middle, rfl, renewals, fun other member =>
        kept other (List.mem_cons_of_mem id member), nofun⟩
    · refine ⟨_, rfl, renewals.tail filedStill stale (.renew filedStill evaluates), ?_, ?_⟩
      · intro other member
        rw [Memory.find?_file_of_ne fun same : other = id => foreign (same ▸ member)]
        exact kept other (List.mem_cons_of_mem id member)
      · intro calculation answered
        exact ⟨_, Memory.find?_file_self _ _ _, rfl, (Except.ok.inj answered).symm⟩
  · exact ⟨memory, rfl, .refl, fun _ _ => rfl, nofun⟩

/-- Evaluating an entry anew, with any number of levels left. The identities in the chain are being
evaluated already, so an entry that is found again among them is never renewed twice. -/
theorem refreshWithin_renews (settings : EngineSettings) (levels : Nat) (chain : List Int) :
    Refreshes settings.evaluator chain (refreshWithin settings levels chain) := by
  induction levels generalizing chain with
  | zero =>
    intro id entry memory failing outcome final _ run
    rw [refreshWithin] at run
    split at run
    · cases run
      exact ⟨memory, .refl, fun _ _ => rfl, .inl ⟨_, rfl, rfl⟩⟩
    · cases run
      exact ⟨memory, .refl, fun _ _ => rfl, .inl ⟨_, rfl, rfl⟩⟩
  | succ levels inductionHypothesis =>
    intro id entry memory failing outcome final filed run
    have reads := (inductionHypothesis (id :: chain)).readWith
    rcases refreshWithin_succ_cases run with
      ⟨-, rfl, rfl⟩ | ⟨foreign, result, state, evaluation, outcomes⟩
    · exact ⟨memory, .refl, fun _ _ => rfl, .inl ⟨_, rfl, rfl⟩⟩
    · rcases reads.evaluateWith evaluation with ⟨middle, rfl, renewals, kept, evaluates⟩
      refine ⟨middle, renewals, kept, ?_⟩
      rcases outcomes with
        ⟨failure, -, rfl, rfl⟩ | ⟨evaluated, rfl, ⟨works, rfl, rfl⟩ | ⟨rfl, rfl, -⟩⟩
      · exact .inl ⟨failure, rfl, rfl⟩
      · exact .inr ⟨evaluated, evaluates evaluated rfl, foreign, works,
          (kept id List.mem_cons_self).trans filed, rfl, rfl⟩
      · exact .inl ⟨_, rfl, rfl⟩

/-- Reading a calculation. -/
theorem read_renews (settings : EngineSettings) :
    Reads settings.evaluator [] (read settings) :=
  (refreshWithin_renews settings settings.maxDepth []).readWith

end Formulary.Engine
