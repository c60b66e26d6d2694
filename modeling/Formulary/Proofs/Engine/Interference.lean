import Formulary.Proofs.Engine.Exposure
import Formulary.Proofs.Engine.Transparency

/-!
# Readings do not interfere

A reading renews only what is read and what that depends on, and the values it files are those from
scratch. So a calculation that can be read can still be read after any other readings, with the same
answer: everything that has become fresh meanwhile is one level less to evaluate.
-/

namespace Formulary.Engine

open Links

variable {evaluator : Formula.Evaluator} {settings : EngineSettings}
  {memory before middle after final : Memory} {failing : List StoreMethod} {id : Int}
  {entry : Entry} {chain : List Int} {read : Int → Action (Faulty Memory) Failure Calculation}
  {refresh : Int → Entry → Action (Faulty Memory) Failure Calculation}

/-! ## What a reading changes -/

/-- Nothing has changed but the entry under an identity and what that depends on. -/
def Within (id : Int) (before after : Memory) : Prop :=
  ∀ other, other ≠ id → ¬DependsOn before.linkList id other →
    after.table.find? other = before.table.find? other

/-- A way of reading that changes nothing but what is read and what that depends on. -/
def Confined (read : Int → Action (Faulty Memory) Failure Calculation) : Prop :=
  ∀ ⦃id : Int⦄ ⦃before : Memory⦄ ⦃failing : List StoreMethod⦄
    ⦃outcome : Except Failure Calculation⦄ ⦃after : Memory⦄,
    Consistent before → read id ⟨before, failing⟩ = (outcome, ⟨after, failing⟩) →
      Within id before after

/-- Where markers lead, links lead. -/
theorem WellLinked.mem_of_refersTo (linked : WellLinked memory) {other : Int}
    (refers : RefersTo memory id other) : ⟨id, other⟩ ∈ memory.linkList := by
  rcases refers with ⟨entry, filed, names⟩
  rcases linked.linked id entry filed with ⟨ids, references, mem_ids⟩
  exact (mem_ids other).mpr ((Formula.mem_references_iff references).mpr names)

/-- What is exposed to an identity is the identity itself or something that it depends on. -/
theorem Exposed.eq_or_dependsOn (linked : WellLinked memory) {other : Int}
    (exposed : Exposed memory id other) : other = id ∨ DependsOn memory.linkList id other := by
  induction exposed with
  | self => exact .inl rfl
  | reference _ refers _ inductionHypothesis =>
    have link := DependsOn.of_mem (linked.mem_of_refersTo refers)
    rcases inductionHypothesis with rfl | depends
    · exact .inr link
    · exact .inr (depends.trans link)

theorem WithinExposed.within (linked : WellLinked before)
    (withinExposed : WithinExposed id before after) : Within id before after := by
  intro other different independent
  apply (withinExposed other).resolve_right
  intro exposed
  exact (exposed.eq_or_dependsOn linked).elim different independent

theorem confined_refreshWithin (settings : EngineSettings) (levels : Nat) (chain : List Int) :
    Confined (readWith (refreshWithin settings levels chain)) :=
  fun _ _ _ _ _ consistent run =>
    (touchesExposed_refreshWithin settings levels chain run).within consistent.toWellLinked

/-! ## Fresher stores -/

/-- Two sound stores with the same formulas, in the second of which more may be fresh. -/
structure Fresher (evaluator : Formula.Evaluator) (before after : Memory) : Prop where
  consistent : Consistent before ∧ Consistent after
  trusted : Trusted evaluator before ∧ Trusted evaluator after
  refreshed : Refreshed before after

theorem Fresher.renewals (fresher : Fresher evaluator before after) {last : Memory}
    (first : Renewals evaluator before middle) (second : Renewals evaluator after last)
    (refreshed : Refreshed middle last) : Fresher evaluator middle last where
  consistent := ⟨fresher.consistent.1.renewals first, fresher.consistent.2.renewals second⟩
  trusted := ⟨fresher.trusted.1.renewals first, fresher.trusted.2.renewals second⟩
  refreshed := refreshed

theorem Refreshed.file (refreshed : Refreshed before after) (id : Int) (entry : Entry) :
    Refreshed (before.file id entry) (after.file id entry) where
  linkList := refreshed.linkList
  lastId := refreshed.lastId
  entry other := by
    by_cases same : other = id
    · subst same
      rw [Memory.find?_file_self, Memory.find?_file_self]
      exact .inl rfl
    · rw [Memory.find?_file_of_ne same, Memory.find?_file_of_ne same]
      exact refreshed.entry other

/-- Fresh entries with the same formulas below them are the same. -/
theorem Trusted.entry_eq (trusted : Trusted evaluator before)
    (trustedAfter : Trusted evaluator after)
    (same : ∀ id, (after.table.find? id).map (·.formula) = (before.table.find? id).map (·.formula))
    {first second : Entry} (filed : before.table.find? id = some first)
    (fresh : first.stale = false) (filedAfter : after.table.find? id = some second)
    (freshAfter : second.stale = false) : first = second := by
  have formulas := same id
  rw [filed, filedAfter] at formulas
  have value := (trusted id first filed fresh).transfer (Keeps.of_same same) trivial
  have results := value.unique (trustedAfter id second filedAfter freshAfter)
  cases first
  cases second
  simp_all

/-- If an entry is fresh in the fresher store, reading it in the other makes nothing fresh that is
not fresh there already. -/
theorem Fresher.refreshed_of_fresh (fresher : Fresher evaluator before after)
    (renewals : Renewals evaluator before final) (within : Within id before final)
    (filed : after.table.find? id = some entry) (fresh : entry.stale = false) :
    Refreshed final after := by
  have refreshed := renewals.refreshed
  have sameFormulas : ∀ id, (after.table.find? id).map (·.formula) =
      (final.table.find? id).map (·.formula) := fun id =>
    (fresher.refreshed.formula id).trans (refreshed.formula id).symm
  constructor
  case linkList => rw [fresher.refreshed.linkList, refreshed.linkList]
  case lastId => rw [fresher.refreshed.lastId, refreshed.lastId]
  case entry =>
    intro other
    rcases refreshed.entry other with same | ⟨old, result, filedOld, stale, renewed⟩
    · rw [same]
      exact fresher.refreshed.entry other
    · have freshOther : ∃ found, after.table.find? other = some found ∧ found.stale = false := by
        by_cases same : other = id
        · exact ⟨entry, same ▸ filed, fresh⟩
        · have depends : DependsOn before.linkList id other := by
            by_contra independent
            rw [within other same independent, filedOld] at renewed
            rw [Option.some.inj renewed] at stale
            cases stale
          rw [← fresher.refreshed.linkList] at depends
          exact fresher.consistent.2.fresh_of_dependsOn filed fresh depends
      rcases freshOther with ⟨found, filedOther, isFresh⟩
      have same := (fresher.trusted.1.renewals renewals).entry_eq fresher.trusted.2 sameFormulas
        renewed rfl filedOther isFresh
      exact .inl (by rw [filedOther, renewed, same])

/-! ## Reading in fresher stores -/

/-- A way of reading that answers in a fresher store what it answers, and leaves a fresher store. -/
def Persists (evaluator : Formula.Evaluator)
    (read : Int → Action (Faulty Memory) Failure Calculation) : Prop :=
  ∀ ⦃id : Int⦄ ⦃before after final : Memory⦄ ⦃calculation : Calculation⦄,
    Fresher evaluator before after →
      read id ⟨before, []⟩ = (.ok calculation, ⟨final, []⟩) →
        ∃ last, read id ⟨after, []⟩ = (.ok calculation, ⟨last, []⟩) ∧ Refreshed final last

theorem Persists.fetchAll (persists : Persists evaluator read) (reads : Reads evaluator chain read)
    {ids : List Int} {values : List (Int × Float)} (fresher : Fresher evaluator before after)
    (run : Formula.fetchAll (fun id => do return (← read id).result) ids ⟨before, []⟩ =
      (.ok values, ⟨final, []⟩)) :
    ∃ last, Formula.fetchAll (fun id => do return (← read id).result) ids ⟨after, []⟩ =
      (.ok values, ⟨last, []⟩) ∧ Refreshed final last := by
  induction ids generalizing before after values with
  | nil =>
    cases run
    exact ⟨after, rfl, fresher.refreshed⟩
  | cons id rest inductionHypothesis =>
    rcases Action.bind_eq_ok_iff.mp run with ⟨value, state, readRun, restRun⟩
    rcases Action.bind_eq_ok_iff.mp readRun with ⟨calculation, state', readOne, valueRun⟩
    cases valueRun
    rcases Action.bind_eq_ok_iff.mp restRun with ⟨others, state'', fetched, last⟩
    cases last
    rcases reads readOne with ⟨middle, rfl, renewals, -, -⟩
    rcases persists fresher readOne with ⟨next, readNext, refreshed⟩
    rcases reads readNext with ⟨_, same, renewalsNext, -, -⟩
    cases same
    rcases inductionHypothesis (fresher.renewals renewals renewalsNext refreshed) fetched with
      ⟨last, fetchedNext, refreshedLast⟩
    refine ⟨last, ?_, refreshedLast⟩
    have valued : (do return (← read id).result : Action (Faulty Memory) Failure Float)
        ⟨after, []⟩ = (.ok calculation.result, ⟨next, []⟩) := Action.bind_of_ok readNext
    rw [Formula.fetchAll, Action.bind_of_ok valued, Action.bind_of_ok fetchedNext]
    rfl

theorem Persists.evaluateWith (persists : Persists evaluator read)
    (reads : Reads evaluator chain read) {formula : List Char} {self : Option Int}
    {evaluated : Evaluated} (fresher : Fresher evaluator before after)
    (run : Engine.evaluateWith evaluator read formula self ⟨before, []⟩ =
      (.ok evaluated, ⟨final, []⟩)) :
    ∃ last, Engine.evaluateWith evaluator read formula self ⟨after, []⟩ =
      (.ok evaluated, ⟨last, []⟩) ∧ Refreshed final last := by
  rcases Action.bind_eq_ok_iff.mp run with ⟨ids, state, found, rest⟩
  rcases Action.ofExcept_mapError_eq_ok_iff.mp found with ⟨sound, rfl⟩
  rcases Action.bind_eq_ok_iff.mp rest with ⟨values, state, fetched, computed⟩
  rcases Prod.mk.inj computed with ⟨recomputed, rfl⟩
  rcases persists.fetchAll reads fresher fetched with ⟨last, fetchedNext, refreshed⟩
  refine ⟨last, ?_, refreshed⟩
  have foundNext : (Action.ofExcept ((Formula.dependencies formula self).mapError .formula) :
      Action (Faulty Memory) Failure IdSet) ⟨after, []⟩ = (.ok ids, ⟨after, []⟩) :=
    Action.ofExcept_mapError_eq_ok_iff.mpr ⟨sound, rfl⟩
  rw [Engine.evaluateWith, Action.bind_of_ok foundNext, Action.bind_of_ok fetchedNext,
    Action.ofExcept_apply, recomputed]

theorem existing_of_filed (filed : memory.table.find? id = some entry) :
    existing id (Faulty.mk memory []) = (.ok entry, ⟨memory, []⟩) := by
  obtain ⟨same, ⟨-, _, found, answered⟩ | ⟨-, absent, -⟩ | ⟨fails, -⟩⟩ :=
    existing_cases (rfl : existing id (Faulty.mk memory []) = _)
  · cases filed.symm.trans found
    exact Prod.ext answered same
  · cases absent.symm.trans filed
  · cases fails

/-- Reading what is fresh answers what is filed and changes nothing. -/
theorem readWith_of_fresh (filed : memory.table.find? id = some entry)
    (fresh : entry.stale = false) :
    readWith refresh id (Faulty.mk memory []) = (.ok (entry.withId id), ⟨memory, []⟩) := by
  rw [readWith, Action.bind_of_ok (existing_of_filed filed), fresh]
  rfl

theorem persists_readWith (renews : Refreshes evaluator chain refresh)
    (confined : Confined (readWith refresh))
    (refreshes : ∀ {id entry before after final calculation}, Fresher evaluator before after →
      before.table.find? id = some entry → after.table.find? id = some entry →
        refresh id entry ⟨before, []⟩ = (.ok calculation, ⟨final, []⟩) →
          ∃ last, refresh id entry ⟨after, []⟩ = (.ok calculation, ⟨last, []⟩) ∧
            Refreshed final last) : Persists evaluator (readWith refresh) := by
  intro id before after final calculation fresher run
  rcases renews.readWith run with ⟨_, same, renewals, -, answers⟩
  cases same
  rcases answers calculation rfl with ⟨entry, filedFinal, freshFinal, rfl⟩
  have within := confined fresher.consistent.1 run
  -- What is fresh in the fresher store is what the reading in the other has found.
  have ofFresh : ∀ {found : Entry}, after.table.find? id = some found → found.stale = false →
      ∃ last, readWith refresh id ⟨after, []⟩ = (.ok (entry.withId id), ⟨last, []⟩) ∧
        Refreshed final last := by
    intro found filed fresh
    have refreshed := fresher.refreshed_of_fresh renewals within filed fresh
    cases filed.symm.trans (refreshed.fresh filedFinal freshFinal)
    exact ⟨after, readWith_of_fresh filed fresh, refreshed⟩
  rcases readWith_cases run with
    ⟨old, filed, ⟨fresh, -, -⟩ | ⟨stale, ran⟩⟩ | ⟨_, -, impossible, -⟩
  · exact ofFresh (fresher.refreshed.fresh filed fresh) fresh
  · rcases fresher.refreshed.entry id with same | ⟨_, result, -, -, renewed⟩
    · have filedAfter := same.trans filed
      rcases refreshes fresher filed filedAfter ran with ⟨last, answered, refreshed⟩
      refine ⟨last, ?_, refreshed⟩
      rw [readWith, Action.bind_of_ok (existing_of_filed filedAfter), stale]
      exact answered
    · exact ofFresh renewed rfl
  · cases impossible

theorem replace_of_filed (filed : memory.table.find? id ≠ none) (entry : Entry) :
    (Action.mapError .store (Store.replace (entry.withId id)) :
      Action (Faulty Memory) Failure Unit) ⟨memory, []⟩ =
        (.ok (), ⟨memory.file id entry, []⟩) := by
  apply Action.mapError_eq_ok_iff.mpr
  obtain ⟨answered, -, -, same⟩ | ⟨-, -, fails | absent⟩ :=
    replace_cases (rfl : Store.replace (entry.withId id) (Faulty.mk memory []) = _)
  · exact Prod.ext answered same
  · cases fails
  · exact absurd absent filed

/-- Evaluating a stale entry anew takes no more levels where more is fresh. -/
theorem refreshWithin_persists (settings : EngineSettings) (levels : Nat) (chain : List Int)
    {calculation : Calculation} (fresher : Fresher settings.evaluator before after)
    (filed : before.table.find? id = some entry) (filedAfter : after.table.find? id = some entry)
    (run : refreshWithin settings levels chain id entry (Faulty.mk before []) =
      (.ok calculation, ⟨final, []⟩)) :
    ∃ last, refreshWithin settings levels chain id entry (Faulty.mk after []) =
      (.ok calculation, ⟨last, []⟩) ∧ Refreshed final last := by
  induction levels generalizing chain id entry before after final calculation with
  | zero =>
    rw [refreshWithin] at run
    split at run <;> cases run
  | succ levels inductionHypothesis =>
    rw [refreshWithin] at run
    split at run
    · cases run
    rename_i foreign
    have renews := refreshWithin_renews settings levels (id :: chain)
    have confined := confined_refreshWithin settings levels (id :: chain)
    have persists := persists_readWith renews confined (inductionHypothesis (id :: chain))
    rcases Action.bind_eq_ok_iff.mp run with ⟨evaluated, state, evaluation, rest⟩
    rcases renews.readWith.evaluateWith evaluation with ⟨middle, rfl, -, kept, -⟩
    rcases persists.evaluateWith renews.readWith fresher evaluation with
      ⟨last, evaluationAfter, refreshed⟩
    have filedLast : last.table.find? id ≠ none := by
      rcases renews.readWith.evaluateWith evaluationAfter with ⟨_, same, -, keptAfter, -⟩
      cases same
      rw [keptAfter id List.mem_cons_self, filedAfter]
      exact Option.some_ne_none entry
    have filedMiddle : middle.table.find? id ≠ none := by
      rw [kept id List.mem_cons_self, filed]
      exact Option.some_ne_none entry
    rw [Action.bind_of_ok (replace_of_filed filedMiddle _)] at rest
    cases rest
    refine ⟨_, ?_, refreshed.file id ⟨entry.formula, evaluated.result, false⟩⟩
    rw [refreshWithin, if_neg foreign, Action.bind_of_ok evaluationAfter]
    exact Action.bind_of_ok (replace_of_filed filedLast _)

theorem read_persists (settings : EngineSettings) :
    Persists settings.evaluator (Engine.read settings) :=
  persists_readWith (refreshWithin_renews settings settings.maxDepth [])
    (confined_refreshWithin settings settings.maxDepth [])
    (refreshWithin_persists settings settings.maxDepth [])

/-! ## Reached states -/

theorem read_faultless_iff {outcome : Except Failure Calculation} :
    Engine.read settings id (Faulty.mk memory []) = (outcome, ⟨after, []⟩) ↔
      Engine.read settings id memory = (outcome, after) := by
  rw [read_mirrors]
  exact mirrored_iff

theorem Fresher.of_renewals (consistent : Consistent before) (trusted : Trusted evaluator before)
    (renewals : Renewals evaluator before after) : Fresher evaluator before after where
  consistent := ⟨consistent, consistent.renewals renewals⟩
  trusted := ⟨trusted, trusted.renewals renewals⟩
  refreshed := renewals.refreshed

/-- What can be read from a sound store can be read from it after any renewals, with the same
answer, and once more without changing anything. -/
theorem read_of_renewals {calculation : Calculation} (consistent : Consistent before)
    (trusted : Trusted settings.evaluator before)
    (renewals : Renewals settings.evaluator before after)
    (answered : (Engine.read settings id before).1 = .ok calculation) :
    ∃ last, Engine.read settings id after = (.ok calculation, last) ∧
      Engine.read settings id last = (.ok calculation, last) := by
  have run : Engine.read settings id before =
      (.ok calculation, (Engine.read settings id before).2) := Prod.ext answered rfl
  rcases read_persists settings (.of_renewals consistent trusted renewals)
    (read_faultless_iff.mpr run) with ⟨last, runAfter, -⟩
  rcases read_renews settings runAfter with ⟨_, same, -, -, answers⟩
  cases same
  rcases answers calculation rfl with ⟨entry, filed, fresh, rfl⟩
  have again : Engine.read settings id (Faulty.mk last []) =
      (.ok (entry.withId id), ⟨last, []⟩) := readWith_of_fresh filed fresh
  exact ⟨last, read_faultless_iff.mp runAfter, read_faultless_iff.mp again⟩

/-- Readings do not interfere: in every state that an engine can reach under one policy and one
nesting limit, a calculation that can be read can still be read after any other has been, whether
that reading answered or failed half way, and its answer is the same. After that, reading it again
gives the same answer and changes nothing. -/
theorem reads_do_not_interfere {mayFail : List StoreMethod → Prop}
    (reached : Reached (fun earlier => earlier.evaluator = settings.evaluator) mayFail memory)
    {id : Int} {calculation : Calculation}
    (answered : (Engine.read settings id memory).1 = .ok calculation) (other : Int) :
    let after := (Engine.read settings other memory).2
    (Engine.read settings id after).1 = .ok calculation ∧
      Engine.read settings id (Engine.read settings id after).2 =
        (.ok calculation, (Engine.read settings id after).2) := by
  have consistent := consistent_empty.of_leads reached
  have trusted := trusted_empty.of_leads (fun _ same => same) consistent_empty reached
  rcases read_renews settings (read_mirrors settings other memory) with ⟨_, same, renewals, -, -⟩
  cases same
  rcases read_of_renewals consistent trusted renewals answered with ⟨last, run, again⟩
  simp only [run]
  exact ⟨trivial, again⟩

/-- A reading that evaluates a stale entry, and the same reading after it. -/
theorem reads_do_not_interfere_changedStore :
    Reached (fun earlier => earlier.evaluator = EngineSettings.evaluator {}) (fun _ => True)
        changedStore ∧
      (changedStore.table.find? 2).map (·.stale) = some true ∧
        ((Engine.read {} 2 changedStore).2.table.find? 2).map (·.stale) = some false ∧
          ∃ calculation, (Engine.read {} 2 changedStore).1 = .ok calculation ∧
            calculation.result = 8 ∧
              (Engine.read {} 2 (Engine.read {} 2 changedStore).2).1 = .ok calculation := by
  have reached : Reached (fun earlier => earlier.evaluator = EngineSettings.evaluator {})
      (fun _ => True) changedStore := by
    apply leads_runAll
    · rfl
    · exact fun _ => trivial
  have evaluated : (changedStore.table.find? 2).map (·.stale) = some true ∧
      ((Engine.read {} 2 changedStore).2.table.find? 2).map (·.stale) = some false ∧
        (Engine.read {} 2 changedStore).1.map (·.result) = .ok 8 := by decide +kernel
  rcases evaluated with ⟨stale, renewed, valued⟩
  cases answered : (Engine.read {} 2 changedStore).1 with
  | error failure =>
    rw [answered] at valued
    cases valued
  | ok calculation =>
    rw [answered] at valued
    have again := (reads_do_not_interfere reached answered 2).1
    exact ⟨reached, stale, renewed, calculation, rfl, Except.ok.inj valued, again⟩

end Formulary.Engine
