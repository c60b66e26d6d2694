import Formulary.Proofs.Engine.Scratch
import Formulary.Proofs.Store.Faultless

/-!
# Readings and values from scratch

A reading whose store does not fail has the outcome that evaluation from scratch has, unless more
stale calculations hang on each other than it may evaluate. The main statements say so of reached
states: what a reading answers is always the value from scratch, and where stale chains are short
enough a reading also fails exactly as evaluation from scratch does.
-/

namespace Formulary.Engine

open Links

/-! ## Chains of stale entries -/

/-- From an identity a chain of this many stale entries leads along markers. -/
inductive StaleChain (memory : Memory) : Int → Nat → Prop where
  | single {id : Int} {entry : Entry} :
      memory.table.find? id = some entry → entry.stale = true → StaleChain memory id 1
  | step {id other : Int} {entry : Entry} {ids : IdSet} {length : Nat} :
      memory.table.find? id = some entry → entry.stale = true →
        Formula.references entry.formula = .ok ids → other ∈ ids →
          StaleChain memory other length → StaleChain memory id (length + 1)

variable {evaluator : Formula.Evaluator} {memory before after : Memory} {chain : List Int}
  {levels limit : Nat}

/-- A chain that is stale after renewals was stale before them. -/
theorem StaleChain.of_refreshed (refreshed : Refreshed before after) {id : Int} {length : Nat}
    (stale : StaleChain after id length) : StaleChain before id length := by
  induction stale with
  | single filed isStale => exact .single (refreshed.stale filed isStale) isStale
  | step filed isStale found member _ inductionHypothesis =>
    exact .step (refreshed.stale filed isStale) isStale found member inductionHypothesis

/-! ## Outcomes of readings -/

/-- Why something that was asked of a calculation did not come out as from scratch: too many stale
entries hang on each other, or one was met again that is being evaluated. -/
def Obstructed (memory : Memory) (levels limit : Nat) (chain : List Int) (id : Int)
    (failure : Failure) : Prop :=
  (failure = .tooDeep limit ∧ ∃ length, levels < length ∧ StaleChain memory id length) ∨
    ∃ met ∈ chain, failure = .links (.cycle met) ∧ (id = met ∨ DependsOn memory.linkList id met)

theorem Obstructed.of_refreshed (refreshed : Refreshed before after) {id : Int} {failure : Failure}
    (obstructed : Obstructed after levels limit chain id failure) :
    Obstructed before levels limit chain id failure := by
  rcases obstructed with ⟨rfl, length, longer, stale⟩ | ⟨met, member, rfl, reaches⟩
  · exact .inl ⟨rfl, length, longer, stale.of_refreshed refreshed⟩
  · exact .inr ⟨met, member, rfl, by rwa [refreshed.linkList] at reaches⟩

/-- A way of reading has the outcome from scratch, or is obstructed. -/
def ReadsTruly (evaluator : Formula.Evaluator) (levels limit : Nat) (chain : List Int)
    (read : Int → Action (Faulty Memory) Failure Calculation) : Prop :=
  ∀ ⦃id : Int⦄ ⦃memory : Memory⦄ ⦃outcome : Except Failure Calculation⦄ ⦃final : Faulty Memory⦄,
    Consistent memory → Trusted evaluator memory → read id ⟨memory, []⟩ = (outcome, final) →
      FromScratch evaluator memory id (outcome.map (·.result)) ∨
        ∃ failure, outcome = .error failure ∧ Obstructed memory levels limit chain id failure

/-- Asking for values one after the other has the outcome from scratch, or one of the readings is
obstructed. -/
theorem ReadsTruly.fetchAll {read : Int → Action (Faulty Memory) Failure Calculation}
    (truly : ReadsTruly evaluator levels limit chain read) (reads : Reads evaluator chain read)
    {ids : List Int} {outcome : Except Failure (List (Int × Float))} {final : Faulty Memory}
    (consistent : Consistent memory) (trusted : Trusted evaluator memory)
    (run : Formula.fetchAll (fun id => do return (← read id).result) ids ⟨memory, []⟩ =
      (outcome, final)) :
    AllFromScratch evaluator memory ids outcome ∨
      ∃ failure, outcome = .error failure ∧
        ∃ id ∈ ids, Obstructed memory levels limit chain id failure := by
  induction ids generalizing memory outcome final with
  | nil =>
    cases run
    exact .inl .done
  | cons id rest inductionHypothesis =>
    rcases Action.bind_cases run with ⟨value, state, readRun, restRun⟩ | ⟨failure, readRun, rfl⟩
    · rcases Action.bind_eq_ok_iff.mp readRun with ⟨calculation, state', readOne, valueRun⟩
      obtain ⟨rfl, rfl⟩ : calculation.result = value ∧ state' = state := by
        simpa using valueRun
      rcases reads readOne with ⟨middle, rfl, renewals, -⟩
      have refreshed := renewals.refreshed
      have value : FromScratch evaluator memory id (.ok calculation.result) := by
        rcases truly consistent trusted readOne with value | ⟨_, impossible, _⟩
        · exact value
        · cases impossible
      -- What is from scratch in the state after the first reading is so in the state before it.
      have back : ∀ {outcome}, AllFromScratch evaluator middle rest outcome →
          AllFromScratch evaluator memory rest outcome := fun all =>
        all.transfer (Keeps.of_same fun id => (refreshed.formula id).symm) fun _ _ => trivial
      rcases Action.bind_cases restRun with
        ⟨others, state, othersRun, last⟩ | ⟨failure, othersRun, rfl⟩
      · cases last
        rcases inductionHypothesis (consistent.renewals renewals) (trusted.renewals renewals)
          othersRun with all | ⟨_, impossible, _⟩
        · exact .inl (.read value (back all))
        · cases impossible
      · rcases inductionHypothesis (consistent.renewals renewals) (trusted.renewals renewals)
          othersRun with all | ⟨_, same, other, member, obstructed⟩
        · exact .inl (.later value (back all))
        · cases same
          exact .inr ⟨failure, rfl, other, List.mem_cons_of_mem id member,
            obstructed.of_refreshed refreshed⟩
    · rcases Action.bind_cases readRun with ⟨_, _, -, impossible⟩ | ⟨_, readOne, same⟩
      · cases impossible
      · cases same
        rcases truly consistent trusted readOne with failed | ⟨_, same, obstructed⟩
        · exact .inl (.failed failed)
        · cases same
          exact .inr ⟨failure, rfl, id, List.mem_cons_self, obstructed⟩

/-- Evaluating the formula of a filed entry has the outcome from scratch, or the reading of
something that it refers to is obstructed. -/
theorem ReadsTruly.evaluateWith {read : Int → Action (Faulty Memory) Failure Calculation}
    (truly : ReadsTruly evaluator levels limit chain read) (reads : Reads evaluator chain read)
    {id : Int} {entry : Entry} {outcome : Except Failure Evaluated} {final : Faulty Memory}
    (consistent : Consistent memory) (trusted : Trusted evaluator memory)
    (filed : memory.table.find? id = some entry)
    (run : evaluateWith evaluator read entry.formula (some id) ⟨memory, []⟩ = (outcome, final)) :
    FromScratch evaluator memory id (outcome.map (·.result)) ∨
      ∃ failure, outcome = .error failure ∧ ∃ ids, Formula.references entry.formula = .ok ids ∧
        ∃ other ∈ ids, Obstructed memory levels limit chain other failure := by
  cases found : Formula.dependencies entry.formula (some id) with
  | error fault =>
    rw [Engine.evaluateWith, found] at run
    cases run
    exact .inl (.unsound filed found)
  | ok ids =>
    rw [Engine.evaluateWith, found] at run
    rcases Action.bind_cases run with ⟨_, state, located, rest⟩ | ⟨_, impossible, -⟩
    · rcases Prod.mk.inj located with ⟨same, rfl⟩
      cases same
      rcases Action.bind_cases rest with ⟨values, state, fetched, last⟩ | ⟨failure, fetched, rfl⟩
      · cases last
        rcases truly.fetchAll reads consistent trusted fetched with all | ⟨_, impossible, _⟩
        · exact .inl (.evaluated filed found all)
        · cases impossible
      · rcases truly.fetchAll reads consistent trusted fetched with all | ⟨_, same, obstructed⟩
        · exact .inl (.unread filed found all)
        · cases same
          exact .inr ⟨failure, rfl, ids, (Formula.dependencies_eq_ok_iff.mp found).1, obstructed⟩
    · cases impossible

/-- What obstructs a reference obstructs the entry that refers to it: the chain of stale entries is
one longer, and the entry itself is not met again because it does not depend on itself. -/
theorem Obstructed.of_reference {id other : Int} {entry : Entry} {ids : IdSet} {failure : Failure}
    (consistent : Consistent memory) (filed : memory.table.find? id = some entry)
    (stale : entry.stale = true) (found : Formula.references entry.formula = .ok ids)
    (member : other ∈ ids)
    (obstructed : Obstructed memory levels limit (id :: chain) other failure) :
    Obstructed memory (levels + 1) limit chain id failure := by
  rcases consistent.linked id entry filed with ⟨_, found', mem_ids⟩
  cases found.symm.trans found'
  have linked := DependsOn.of_mem ((mem_ids other).mpr member)
  rcases obstructed with ⟨rfl, length, longer, staleOther⟩ | ⟨met, inChain, rfl, reaches⟩
  · exact .inl ⟨rfl, length + 1, Nat.succ_lt_succ longer, .step filed stale found member staleOther⟩
  · have depends : DependsOn memory.linkList id met := by
      rcases reaches with rfl | reaches
      · exact linked
      · exact linked.trans reaches
    rcases List.mem_cons.mp inChain with rfl | inChain
    · exact absurd depends (consistent.acyclic met)
    · exact .inr ⟨met, inChain, rfl, .inr depends⟩

/-- A way of evaluating filed entries anew has the outcome from scratch, or is obstructed. -/
def RefreshesTruly (evaluator : Formula.Evaluator) (levels limit : Nat) (chain : List Int)
    (refresh : Int → Entry → Action (Faulty Memory) Failure Calculation) : Prop :=
  ∀ ⦃id : Int⦄ ⦃entry : Entry⦄ ⦃memory : Memory⦄ ⦃outcome : Except Failure Calculation⦄
    ⦃final : Faulty Memory⦄,
    Consistent memory → Trusted evaluator memory → memory.table.find? id = some entry →
      entry.stale = true → refresh id entry ⟨memory, []⟩ = (outcome, final) →
        FromScratch evaluator memory id (outcome.map (·.result)) ∨
          ∃ failure, outcome = .error failure ∧ Obstructed memory levels limit chain id failure

theorem RefreshesTruly.readWith {refresh : Int → Entry → Action (Faulty Memory) Failure Calculation}
    (truly : RefreshesTruly evaluator levels limit chain refresh) :
    ReadsTruly evaluator levels limit chain (readWith refresh) := by
  intro id memory outcome final consistent trusted run
  rcases Action.bind_cases run with ⟨entry, state, found, rest⟩ | ⟨failure, found, rfl⟩
  · obtain ⟨rfl, ⟨-, _, filed, same⟩ | ⟨-, -, impossible⟩ | ⟨-, impossible⟩⟩ := existing_cases found
    · cases same
      cases stale : entry.stale with
      | false =>
        rw [stale] at rest
        cases rest
        exact .inl (trusted id entry filed stale)
      | true =>
        rw [stale] at rest
        exact truly consistent trusted filed stale rest
    · cases impossible
    · cases impossible
  · rcases existing_cases found with ⟨-, ⟨-, _, -, impossible⟩ | ⟨-, absent, same⟩ | ⟨fails, -⟩⟩
    · cases impossible
    · cases same
      exact .inl (.missing absent)
    · cases fails

/-- Evaluating a stale entry anew. An entry that is being evaluated already is met again only if it
depends on itself, which no entry of a consistent store does. -/
theorem refreshWithin_truly (settings : EngineSettings) (levels : Nat) (chain : List Int) :
    RefreshesTruly settings.evaluator levels settings.maxDepth chain
      (refreshWithin settings levels chain) := by
  induction levels generalizing chain with
  | zero =>
    intro id entry memory outcome final _ _ filed stale run
    rw [refreshWithin] at run
    split at run
    · rename_i met
      cases run
      exact .inr ⟨_, rfl, .inr ⟨id, met, rfl, .inl rfl⟩⟩
    · cases run
      exact .inr ⟨_, rfl, .inl ⟨rfl, 1, Nat.zero_lt_one, .single filed stale⟩⟩
  | succ levels inductionHypothesis =>
    intro id entry memory outcome final consistent trusted filed stale run
    rw [refreshWithin] at run
    split at run
    · rename_i met
      cases run
      exact .inr ⟨_, rfl, .inr ⟨id, met, rfl, .inl rfl⟩⟩
    · have reads := (refreshWithin_renews settings levels (id :: chain)).readWith
      have truly := (inductionHypothesis (id :: chain)).readWith
      rcases Action.bind_cases run with
        ⟨evaluated, state, evaluation, rest⟩ | ⟨failure, evaluation, rfl⟩
      · rcases truly.evaluateWith reads consistent trusted filed evaluation with
          value | ⟨_, impossible, _⟩
        · rcases reads.evaluateWith evaluation with ⟨middle, rfl, -, kept, -⟩
          have filedStill := (kept id List.mem_cons_self).trans filed
          rcases Action.bind_cases rest with ⟨_, state, -, last⟩ | ⟨_, replaced, rfl⟩
          · cases last
            exact .inl value
          · rcases Action.mapError_eq_error_iff.mp replaced with ⟨cause, failed, rfl⟩
            rcases replace_cases failed with ⟨impossible, -⟩ | ⟨-, -, fails | absent⟩
            · cases impossible
            · cases fails
            · cases filedStill.symm.trans absent
        · cases impossible
      · rcases truly.evaluateWith reads consistent trusted filed evaluation with
          failed | ⟨_, same, ids, found, other, member, obstructed⟩
        · exact .inl failed
        · cases same
          exact .inr ⟨failure, rfl, obstructed.of_reference consistent filed stale found member⟩

/-- A reading of a store that does not fail has the outcome from scratch, or more stale entries hang
on each other than it may evaluate. -/
theorem read_truly {settings : EngineSettings} (id : Int) (consistent : Consistent memory)
    (trusted : Trusted settings.evaluator memory) :
    FromScratch settings.evaluator memory id ((read settings id memory).1.map (·.result)) ∨
      (read settings id memory).1 = .error (.tooDeep settings.maxDepth) ∧
        ∃ length, settings.maxDepth < length ∧ StaleChain memory id length := by
  have run := read_mirrors settings id memory
  rcases (refreshWithin_truly settings settings.maxDepth []).readWith consistent trusted run with
    value | ⟨failure, failed, ⟨rfl, tooLong⟩ | ⟨_, impossible, _⟩⟩
  · exact .inl value
  · exact .inr ⟨failed, tooLong⟩
  · cases impossible

/-! ## Reached states -/

/-- In every state that an engine can reach under one policy and one nesting limit, whatever fails
on the way: what a reading answers is the value from scratch, and is filed fresh; and if all chains
of stale entries are short enough for the reading, it has exactly the outcome from scratch. -/
theorem read_eq_fromScratch {mayFail : List StoreMethod → Prop} {settings : EngineSettings}
    {id : Int}
    (reached : Reached (fun earlier => earlier.evaluator = settings.evaluator) mayFail memory) :
    (∀ calculation, (read settings id memory).1 = .ok calculation →
        FromScratch settings.evaluator memory id (.ok calculation.result) ∧
          ∃ entry, (read settings id memory).2.table.find? id = some entry ∧
            entry.stale = false ∧ calculation = entry.withId id) ∧
      ((∀ length, StaleChain memory id length → length ≤ settings.maxDepth) →
        ∀ outcome, FromScratch settings.evaluator memory id outcome ↔
          (read settings id memory).1.map (·.result) = outcome) := by
  have consistent := consistent_empty.of_leads reached
  have trusted := trusted_empty.of_leads (fun _ same => same) consistent_empty reached
  have truly := read_truly id consistent trusted
  refine ⟨fun calculation answered => ⟨?_, ?_⟩, fun short outcome => ?_⟩
  · rcases truly with value | ⟨failed, -⟩
    · rwa [answered] at value
    · cases answered.symm.trans failed
  · obtain ⟨after, final_eq, -, -, fresh⟩ := read_renews settings (read_mirrors settings id memory)
    obtain rfl := (Faulty.mk.inj final_eq).1
    exact fresh calculation answered
  · rcases truly with value | ⟨-, length, tooLong, stale⟩
    · exact ⟨fun other => value.unique other, fun same => same ▸ value⟩
    · exact absurd (short length stale) (Nat.not_le.mpr tooLong)

theorem read_eq_fromScratch_changedStore :
    Reached (fun earlier => earlier.evaluator = EngineSettings.evaluator {}) (fun _ => True)
        changedStore ∧
      (∀ length, StaleChain changedStore 2 length → length ≤ 1) ∧
        (read {} 2 changedStore).1.map (·.result) = .ok 8 ∧
          FromScratch (EngineSettings.evaluator {}) changedStore 2 (.ok 8) := by
  have reached : Reached (fun earlier => earlier.evaluator = EngineSettings.evaluator {})
      (fun _ => True) changedStore := by
    apply leads_runAll
    · rfl
    · exact fun _ => trivial
  have answered : (read {} 2 changedStore).1.map (·.result) = .ok 8 := by decide +kernel
  have short : ∀ length, StaleChain changedStore 2 length → length ≤ 1 := by
    intro length stale
    cases stale with
    | single => exact Nat.le_refl 1
    | @step _ other entry ids length filed _ found member staleOther =>
      -- The only reference is to the entry that was changed, and that one is fresh.
      have formula : (changedStore.table.find? 2).map (·.formula) = some "\x7b1\x7d+1".toList := by
        decide +kernel
      have references : (Formula.references "\x7b1\x7d+1".toList).map (·.toList) = .ok [1] := by
        decide +kernel
      have fresh : (changedStore.table.find? 1).map (·.stale) = some false := by decide +kernel
      rw [filed] at formula
      rw [← Option.some.inj formula, found] at references
      have isFirst : other = 1 := by
        simpa [Except.ok.inj references] using (IdSet.mem_def.mp member)
      cases staleOther with
      | single filedOther isStale => simp [← isFirst, filedOther, isStale] at fresh
      | step filedOther isStale => simp [← isFirst, filedOther, isStale] at fresh
  have truly : FromScratch (EngineSettings.evaluator {}) changedStore 2 (.ok 8) ↔
      (read {} 2 changedStore).1.map (·.result) = .ok 8 :=
    (read_eq_fromScratch reached).2
      (fun length stale => Nat.le_trans (short length stale) (by decide)) (.ok 8)
  exact ⟨reached, short, answered, truly.mpr answered⟩

end Formulary.Engine
