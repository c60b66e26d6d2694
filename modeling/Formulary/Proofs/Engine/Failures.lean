import Formulary.Proofs.Engine.Evaluability
import Formulary.Proofs.Store.Faultless

/-!
# What a reached store can still fail with

Every filed formula has been accepted and evaluated once, and the links run in no circle. As long as
the store itself does not fail, reading and recalculating therefore fail only for something that is
missing, for a divisor that is zero, or for a limit on depth; deleting fails only for what is not
there; and a circle is reported only to a change that would close one.
-/

namespace Formulary

/-! ## Faults of evaluation -/

namespace Formula

variable {policy : SplitPolicy} {limit levels : Nat} {text : List Char} {fault : Fault}

/-- Evaluating a text never blames it for what would have been found when it was handed in. -/
theorem evaluateWithin_fault (failed : evaluateWithin policy limit levels text = .error fault) :
    fault.isInputFault = false := by
  induction levels generalizing text fault with
  | zero =>
    cases failed
    rfl
  | succ levels inductionHypothesis =>
    rw [evaluateWithin] at failed
    rcases evaluateShape_eq_error _ failed with
      (rfl | rfl | ⟨_, rfl⟩) | ⟨_, _, -, -, inner, -, innerFailed⟩
    · rfl
    · rfl
    · rfl
    · exact inductionHypothesis innerFailed

/-- A text that refers to nothing of its own is not said to refer to itself. -/
theorem dependencies_none_eq_error (failed : dependencies text none = .error fault) :
    ∃ digits, fault = .markerRange digits := by
  rw [dependencies, references] at failed
  cases collected : markedIds (segments text) with
  | error found =>
    rw [collected] at failed
    cases failed
    rcases markedIds_eq_error collected with ⟨-, digits, -, -, -, -, fault_eq⟩
    exact ⟨digits, fault_eq⟩
  | ok ids =>
    rw [collected] at failed
    cases failed

theorem error_of_bind {α : Type} {check : Except Fault Unit} {next : Unit → Except Fault α}
    (run : (check >>= next) = .error fault) : check = .error fault ∨ next () = .error fault := by
  cases check with
  | error found =>
    cases run
    exact .inl rfl
  | ok => exact .inr run

/-- What is handed in is never said to refer to itself: it has no identity yet. -/
theorem canonical_ne_selfReference {raw : List Char} (id : Int) :
    canonical raw ≠ .error (.selfReference id) := by
  intro failed
  rw [canonical] at failed
  simp only at failed
  split at failed
  · cases failed
  split at failed
  · cases failed
  rcases error_of_bind failed with refused | failed
  · rw [checkOperators] at refused
    split at refused <;> cases refused
  rcases error_of_bind failed with refused | failed
  · rw [checkBrackets] at refused
    split at refused <;> cases refused
  rcases error_of_bind failed with refused | failed
  · rw [checkFirst] at refused
    repeat (split at refused <;> try cases refused)
  rcases error_of_bind failed with refused | failed
  · rw [checkLast] at refused
    repeat (split at refused <;> try cases refused)
  rcases error_of_bind failed with refused | failed
  · rw [checkNeighbours] at refused
    simp only at refused
    split at refused <;> cases refused
  · cases failed

end Formula

namespace Table

variable {α : Type} {entries : List (Int × α)} {id : Int}

theorem find?_foldl_insert_ne_none {start : Table α}
    (present : id ∈ entries.map Prod.fst ∨ start.find? id ≠ none) :
    (entries.foldl (fun table entry => table.insert entry.1 entry.2) start).find? id ≠ none := by
  induction entries generalizing start with
  | nil => exact present.resolve_left List.not_mem_nil
  | cons entry rest inductionHypothesis =>
    apply inductionHypothesis
    rw [find?_insert]
    split
    · exact .inr nofun
    · rename_i different
      rw [List.map_cons, List.mem_cons] at present
      exact present.imp_left fun listed => listed.resolve_left different

/-- Under every identity that is listed something is found. -/
theorem exists_find?_ofList (member : id ∈ entries.map Prod.fst) :
    ∃ value, (ofList entries).find? id = some value :=
  Option.ne_none_iff_exists'.mp (find?_foldl_insert_ne_none (.inl member))

end Table

namespace Engine

open Formula (canonical references Evaluable)
open Links

/-! ## Circumstances -/

/-- A failure that lies in what is filed at the moment and in the limits that are set, and in no
formula, no link and no store. -/
inductive Circumstantial : Failure → Prop where
  | notFound (id : Int) : Circumstantial (.notFound id)
  | divisionByZero (quotient : List Char) : Circumstantial (.formula (.divisionByZero quotient))
  | nesting (limit : Nat) : Circumstantial (.formula (.tooDeep limit))
  | chain (limit : Nat) : Circumstantial (.tooDeep limit)

variable {evaluator : Formula.Evaluator} {settings : EngineSettings} {memory : Memory}
  {failing : List StoreMethod} {failure : Failure} {final : Faulty Memory} {id : Int}
  {raw formula : List Char} {self : Option Int} {chain : List Int}
  {read : Int → Action (Faulty Memory) Failure Calculation}

/-! ## Where a failure comes from -/

theorem valued_of_complete {ids : IdSet} {values : List (Int × Float)}
    (complete : values.map Prod.fst = ids.toList) :
    ∀ id ∈ ids, (Table.ofList values).find? id =
      some (((Table.ofList values).find? id).getD 0) := by
  intro id member
  rw [IdSet.mem_def, ← complete] at member
  rcases Table.exists_find?_ofList member with ⟨value, filed⟩
  rw [filed, Option.getD_some]

/-- With a value for everything that a formula refers to, only evaluating it can fail. -/
theorem recompute_eq_error {ids : IdSet} {values : List (Int × Float)}
    (found : Formula.dependencies formula self = .ok ids)
    (complete : values.map Prod.fst = ids.toList)
    (failed : recompute evaluator formula self (Table.ofList values) = .error failure) :
    (∀ id ∈ ids, ∃ value, (Table.ofList values).find? id = some value) ∧
      ∃ fault, evaluator.evaluate
          (Formula.substitute (Table.ofList values).find? (Formula.segments formula)) =
            .error fault ∧ failure = .formula fault := by
  have valued := valued_of_complete complete
  refine ⟨fun id member => ⟨_, valued id member⟩, ?_⟩
  rw [recompute_of_given found valued] at failed
  cases evaluated : evaluator.evaluate
      (Formula.substitute (Table.ofList values).find? (Formula.segments formula)) with
  | ok value =>
    rw [evaluated] at failed
    cases failed
  | error fault =>
    rw [evaluated] at failed
    cases failed
    exact ⟨fault, rfl, rfl⟩

/-! ## Reading -/

/-- A way of reading that fails by circumstances alone while some calculations are being evaluated,
all of which depend on what is read. -/
def FailsByCircumstance (chain : List Int)
    (read : Int → Action (Faulty Memory) Failure Calculation) : Prop :=
  ∀ ⦃id : Int⦄ ⦃memory : Memory⦄ ⦃failure : Failure⦄ ⦃final : Faulty Memory⦄,
    Consistent memory → AllEvaluable memory →
      (∀ other ∈ chain, DependsOn memory.linkList other id) →
        read id ⟨memory, []⟩ = (.error failure, final) → Circumstantial failure

theorem existing_eq_error
    (run : existing id (Faulty.mk memory []) = (.error failure, final)) :
    failure = .notFound id := by
  obtain ⟨-, ⟨-, _, -, same⟩ | ⟨-, -, same⟩ | ⟨fails, -⟩⟩ := existing_cases run
  · cases same
  · cases same
    rfl
  · cases fails

/-- No filed formula refers to its own identity. -/
theorem WellLinked.dependencies (linked : WellLinked memory) {entry : Entry}
    (filed : memory.table.find? id = some entry) :
    ∃ ids, Formula.dependencies entry.formula (some id) = .ok ids ∧
      ∀ other, ⟨id, other⟩ ∈ memory.linkList ↔ other ∈ ids := by
  rcases linked.linked id entry filed with ⟨ids, found, mem_ids⟩
  refine ⟨ids, Formula.dependencies_eq_ok_iff.mpr ⟨found, ?_⟩, mem_ids⟩
  rintro _ ⟨⟩ member
  exact linked.acyclic id (.of_mem ((mem_ids id).mpr member))

/-- Evaluating a filed formula fails by circumstances alone. -/
theorem FailsByCircumstance.evaluateWith (fails : FailsByCircumstance (id :: chain) read)
    (reads : Reads evaluator (id :: chain) read) (consistent : Consistent memory)
    (all : AllEvaluable memory) {entry : Entry} (filed : memory.table.find? id = some entry)
    (dependents : ∀ other ∈ chain, DependsOn memory.linkList other id)
    (run : evaluateWith evaluator read entry.formula (some id) ⟨memory, []⟩ =
      (.error failure, final)) : Circumstantial failure := by
  rcases consistent.dependencies filed with ⟨ids, sound, mem_ids⟩
  rcases reads.evaluateWith_eq_error run with
    ⟨fault, refused, -⟩ | ⟨_, sound', unread | ⟨values, complete, failed⟩⟩
  · cases sound.symm.trans refused
  · cases sound.symm.trans sound'
    rcases unread with ⟨other, member, middle, renewals, failed⟩
    apply fails (consistent.renewals renewals) (all.renewals renewals) _ failed
    rw [renewals.refreshed.linkList]
    have linked := DependsOn.of_mem ((mem_ids other).mpr member)
    intro first inChain
    rcases List.mem_cons.mp inChain with rfl | inChain
    · exact linked
    · exact (dependents first inChain).trans linked
  · cases sound.symm.trans sound'
    rcases recompute_eq_error sound complete failed with ⟨given, fault, evaluated, rfl⟩
    have found := (Formula.dependencies_eq_ok_iff.mp sound).1
    have parses := all id entry filed ids found (Table.ofList values).find? given evaluator.policy
    rcases parses.fault_cases evaluated with ⟨quotient, rfl⟩ | rfl
    · exact .divisionByZero quotient
    · exact .nesting _

theorem failsByCircumstance_readWith
    {refresh : Int → Entry → Action (Faulty Memory) Failure Calculation}
    (refreshes : ∀ {id entry memory failure final}, Consistent memory → AllEvaluable memory →
      (∀ other ∈ chain, DependsOn memory.linkList other id) →
        memory.table.find? id = some entry →
          refresh id entry ⟨memory, []⟩ = (.error failure, final) → Circumstantial failure) :
    FailsByCircumstance chain (readWith refresh) := by
  intro id memory failure final consistent all dependents run
  rcases readWith_cases run with
    ⟨entry, filed, ⟨-, impossible, -⟩ | ⟨-, renewed⟩⟩ | ⟨cause, found, same, -⟩
  · cases impossible
  · exact refreshes consistent all dependents filed renewed
  · cases same
    rw [existing_eq_error found]
    exact .notFound id

/-- Evaluating a filed entry anew fails by circumstances alone. It is not met among what is being
evaluated, because all of that depends on it. -/
theorem refreshWithin_circumstantial (settings : EngineSettings) (levels : Nat) (chain : List Int)
    {entry : Entry} (consistent : Consistent memory) (all : AllEvaluable memory)
    (dependents : ∀ other ∈ chain, DependsOn memory.linkList other id)
    (filed : memory.table.find? id = some entry)
    (run : refreshWithin settings levels chain id entry ⟨memory, []⟩ = (.error failure, final)) :
    Circumstantial failure := by
  induction levels generalizing chain id entry memory failure final with
  | zero =>
    rw [refreshWithin] at run
    split at run
    · rename_i met
      exact absurd (dependents id met) (consistent.acyclic id)
    · cases run
      exact .chain _
  | succ levels inductionHypothesis =>
    have fails := failsByCircumstance_readWith (inductionHypothesis (id :: chain))
    have reads := (refreshWithin_renews settings levels (id :: chain)).readWith
    rcases refreshWithin_succ_cases run with ⟨met, -⟩ |
      ⟨-, _, state, evaluation, ⟨cause, rfl, same, rfl⟩ | ⟨_, -, ⟨-, impossible, -⟩ | ⟨-, -, why⟩⟩⟩
    · exact absurd (dependents id met) (consistent.acyclic id)
    · cases same
      exact fails.evaluateWith reads consistent all filed dependents evaluation
    · cases impossible
    · rcases reads.evaluateWith evaluation with ⟨middle, rfl, -, kept, -⟩
      have filedStill := (kept id List.mem_cons_self).trans filed
      rcases why with fails | absent
      · cases fails
      · cases filedStill.symm.trans absent

theorem read_circumstantial (consistent : Consistent memory) (all : AllEvaluable memory)
    (run : Engine.read settings id (Faulty.mk memory []) = (.error failure, final)) :
    Circumstantial failure :=
  failsByCircumstance_readWith (refreshWithin_circumstantial settings settings.maxDepth [])
    consistent all nofun run

/-- Evaluating a formula that is not filed fails by circumstances, or because it refers to itself or
to an identity out of range, or for a fault of evaluation. -/
theorem evaluate_eq_error (consistent : Consistent memory) (all : AllEvaluable memory)
    (run : evaluate settings formula self (Faulty.mk memory []) = (.error failure, final)) :
    Circumstantial failure ∨ ∃ fault, failure = .formula fault ∧
      (Formula.dependencies formula self = .error fault ∨ fault.isInputFault = false) := by
  rcases (read_renews settings).evaluateWith_eq_error run with
    ⟨fault, refused, rfl⟩ | ⟨ids, sound, unread | ⟨values, complete, failed⟩⟩
  · exact .inr ⟨fault, rfl, .inl refused⟩
  · rcases unread with ⟨other, -, middle, renewals, failed⟩
    exact .inl (read_circumstantial (consistent.renewals renewals) (all.renewals renewals) failed)
  · rcases recompute_eq_error sound complete failed with ⟨-, fault, evaluated, rfl⟩
    exact .inr ⟨fault, rfl, .inr (Formula.evaluateWithin_fault evaluated)⟩

/-! ## Writing to a store that does not fail -/

theorem recordLinks_ne_error {dependencies : IdSet} :
    recordLinks id dependencies (Faulty.mk memory []) ≠ (.error failure, final) := by
  intro run
  rcases Action.mapError_eq_error_iff.mp run with ⟨_, failed, -⟩
  exact record_ne_error failed

theorem cascade_ne_error (acyclic : Acyclic memory.linkList) :
    cascade id (Faulty.mk memory []) ≠ (.error failure, final) := by
  intro run
  rcases Action.mapError_eq_error_iff.mp run with ⟨_, failed, -⟩
  obtain ⟨_, _, impossible, -⟩ | ⟨_, -, ⟨fails, -⟩ | fails | fails | circle⟩ := cascade_cases failed
  · cases impossible
  · cases fails
  · cases fails
  · cases fails
  · exact acyclic id circle

/-- New links to something else than their origin are refused because one of them leads to something
that depends on it. -/
theorem ensureAcyclic_eq_error {origin : Int} {dependencies : IdSet} {error : LinkError}
    (foreign : origin ∉ dependencies)
    (refused : ensureAcyclic origin dependencies (Faulty.mk memory []) = .error error) :
    ∃ culprit ∈ dependencies, error = .cycle culprit ∧
      DependsOn memory.linkList culprit origin := by
  have works : StoreMethod.dependents ∉ [] := List.not_mem_nil
  rcases (memory.shows_links works).ensureAcyclic_cases origin dependencies with
    ⟨passed, -⟩ | ⟨culprit, member, back, failed⟩
  · cases passed.symm.trans refused
  · cases failed.symm.trans refused
    refine ⟨culprit, member, rfl, back.resolve_left ?_⟩
    rintro rfl
    exact foreign member

theorem filing_ne_error (entry : Entry) {dependencies : IdSet} :
    (do
      let id ← Action.mapError .store (Store.save entry)
      recordLinks id dependencies
      return id : Action (Faulty Memory) Failure Int) ⟨memory, []⟩ ≠ (.error failure, final) := by
  intro run
  rcases Action.bind_cases run with ⟨newId, state, saved, rest⟩ | ⟨_, saved, -⟩
  · obtain ⟨-, _, inserted, rfl⟩ := Faulty.guarded_eq_ok (Action.mapError_eq_ok_iff.mp saved)
    rcases Action.bind_cases rest with ⟨_, _, _, impossible⟩ | ⟨_, recorded, -⟩
    · cases impossible
    · exact recordLinks_ne_error recorded
  · rcases Action.mapError_eq_error_iff.mp saved with ⟨_, failed, -⟩
    cases Faulty.guarded_eq_error failed

theorem rewriting_ne_error (entry : Entry) {dependencies : IdSet}
    (acyclic : Acyclic memory.linkList) (filed : memory.table.find? id ≠ none)
    (independent : ∀ other ∈ dependencies, other ≠ id ∧ ¬DependsOn memory.linkList other id) :
    (do
      Action.mapError .store (Store.replace (entry.withId id))
      recordLinks id dependencies
      let _ ← cascade id
      return () : Action (Faulty Memory) Failure Unit) ⟨memory, []⟩ ≠ (.error failure, final) := by
  intro run
  rcases Action.bind_cases run with ⟨_, state, replaced, rest⟩ | ⟨_, replaced, -⟩
  · obtain ⟨-, -, -, rfl⟩ | ⟨impossible, -⟩ :=
      replace_cases (Action.mapError_eq_ok_iff.mp replaced)
    · rcases Action.bind_cases rest with ⟨_, state, recorded, rest⟩ | ⟨_, recorded, -⟩
      · rcases recordLinks_eq_ok recorded with ⟨links, rfl, relinked⟩
        rcases Action.bind_cases rest with ⟨_, _, _, impossible⟩ | ⟨_, cascaded, -⟩
        · cases impossible
        · exact cascade_ne_error (relinked.acyclic acyclic independent) cascaded
      · exact recordLinks_ne_error recorded
    · cases impossible
  · rcases Action.mapError_eq_error_iff.mp replaced with ⟨_, failed, -⟩
    rcases replace_cases failed with ⟨impossible, -⟩ | ⟨-, -, fails | absent⟩
    · cases impossible
    · cases fails
    · exact filed absent

theorem removing_ne_error (id : Int) (acyclic : Acyclic memory.linkList) :
    (do
      Action.mapError .store (Store.unlink id)
      Action.mapError .store (Store.remove id)
      let _ ← cascade id
      return () : Action (Faulty Memory) Failure Unit) ⟨memory, []⟩ ≠ (.error failure, final) := by
  intro run
  rcases Action.bind_cases run with ⟨_, state, unlinked, rest⟩ | ⟨_, unlinked, -⟩
  · rcases unlink_eq_ok (Action.mapError_eq_ok_iff.mp unlinked) with ⟨links, rfl, relinked⟩
    rcases Action.bind_cases rest with ⟨_, state, removed, rest⟩ | ⟨_, removed, -⟩
    · rcases Faulty.guarded_eq_ok (Action.mapError_eq_ok_iff.mp removed) with ⟨-, _, erased, rfl⟩
      cases erased
      rcases Action.bind_cases rest with ⟨_, _, _, impossible⟩ | ⟨_, cascaded, -⟩
      · cases impossible
      · exact cascade_ne_error (relinked.acyclic acyclic fun _ => False.elim) cascaded
    · rcases Action.mapError_eq_error_iff.mp removed with ⟨_, failed, -⟩
      cases Faulty.guarded_eq_error failed
  · rcases Action.mapError_eq_error_iff.mp unlinked with ⟨_, failed, -⟩
    cases Faulty.guarded_eq_error failed

/-! ## The operations -/

theorem recalculate_circumstantial (consistent : Consistent memory) (all : AllEvaluable memory)
    (run : recalculate settings id (Faulty.mk memory []) = (.error failure, final)) :
    Circumstantial failure := by
  rcases Action.bind_cases run with ⟨entry, state, found, rest⟩ | ⟨cause, found, same⟩
  · rcases filed_of_existing found with ⟨rfl, filed⟩
    rcases Action.bind_cases rest with ⟨refreshed, state, renewed, rest⟩ | ⟨cause, renewed, same⟩
    · rcases refreshWithin_renews settings settings.maxDepth [] filed renewed with
        ⟨middle, renewals, -, ⟨_, impossible, -⟩ | ⟨_, _, _, _, _, _, rfl⟩⟩
      · cases impossible
      · simp only at rest
        split at rest
        · rcases Action.bind_cases rest with ⟨_, _, _, impossible⟩ | ⟨_, cascaded, -⟩
          · cases impossible
          · refine absurd cascaded (cascade_ne_error ?_)
            rw [Memory.file_linkList, renewals.refreshed.linkList]
            exact consistent.acyclic
        · cases rest
    · cases same
      exact refreshWithin_circumstantial settings settings.maxDepth [] consistent all nofun filed
        renewed
  · cases same
    rw [existing_eq_error found]
    exact .notFound id

theorem delete_eq_error (consistent : Consistent memory)
    (run : delete id (Faulty.mk memory []) = (.error failure, final)) : failure = .notFound id := by
  rcases Action.bind_cases run with ⟨entry, state, found, removal⟩ | ⟨cause, found, same⟩
  · rcases existing_cases found with ⟨rfl, -⟩
    rcases Action.exists_of_atomically_error removal with ⟨_, removing⟩
    exact absurd removing (removing_ne_error id consistent.acyclic)
  · cases same
    exact existing_eq_error found

/-- Creating fails by circumstances, or because of the formula, which is not said to refer to
itself. -/
theorem create_eq_error (consistent : Consistent memory) (all : AllEvaluable memory)
    (run : create settings raw (Faulty.mk memory []) = (.error failure, final)) :
    Circumstantial failure ∨
      ∃ fault, failure = .formula fault ∧ ∀ other, fault ≠ .selfReference other := by
  rcases Action.bind_cases run with ⟨formula, state, accepted, rest⟩ | ⟨cause, refused, same⟩
  · rcases Action.ofExcept_mapError_eq_ok_iff.mp accepted with ⟨-, rfl⟩
    rcases Action.bind_cases rest with
      ⟨evaluated, state, evaluation, rest⟩ | ⟨cause, evaluation, same⟩
    · rcases evaluate_renews evaluation with ⟨middle, rfl, -, -⟩
      rcases Action.bind_cases rest with ⟨_, _, _, impossible⟩ | ⟨_, filed, -⟩
      · cases impossible
      · rcases Action.exists_of_atomically_error filed with ⟨_, filing⟩
        exact absurd filing (filing_ne_error _)
    · cases same
      rcases evaluate_eq_error consistent all evaluation with
        circumstantial | ⟨fault, rfl, refused | notInput⟩
      · exact .inl circumstantial
      · refine .inr ⟨fault, rfl, ?_⟩
        rintro other rfl
        rcases Formula.dependencies_none_eq_error refused with ⟨digits, impossible⟩
        cases impossible
      · refine .inr ⟨fault, rfl, ?_⟩
        rintro other rfl
        cases notInput
  · cases same
    rcases Action.ofExcept_mapError_eq_error_iff.mp refused with ⟨fault, failed, rfl, -⟩
    refine .inr ⟨fault, rfl, ?_⟩
    rintro other rfl
    exact Formula.canonical_ne_selfReference other failed

/-- Changing fails by circumstances, because of the formula, or because the formula refers to
something that depends on what is changed. -/
theorem update_eq_error (consistent : Consistent memory) (all : AllEvaluable memory)
    (run : update settings id raw (Faulty.mk memory []) = (.error failure, final)) :
    Circumstantial failure ∨ (∃ fault, failure = .formula fault) ∨
      ∃ formula ids culprit, canonical raw = .ok formula ∧ references formula = .ok ids ∧
        culprit ∈ ids ∧ DependsOn memory.linkList culprit id ∧
          failure = .links (.cycle culprit) := by
  rcases Action.bind_cases run with ⟨formula, state, accepted, rest⟩ | ⟨cause, refused, same⟩
  · rcases Action.ofExcept_mapError_eq_ok_iff.mp accepted with ⟨spelled, rfl⟩
    rcases Action.bind_cases rest with ⟨entry, state, found, rest⟩ | ⟨cause, found, same⟩
    · rcases filed_of_existing found with ⟨rfl, filed⟩
      rcases Action.bind_cases rest with
        ⟨evaluated, state, evaluation, rest⟩ | ⟨cause, evaluation, same⟩
      · rcases evaluate_renews evaluation with ⟨middle, rfl, renewals, evaluates⟩
        rcases Formula.dependencies_eq_ok_iff.mp (evaluates evaluated rfl).dependencies with
          ⟨references, foreign⟩
        rcases Action.bind_cases rest with ⟨_, state, checked, rest⟩ | ⟨cause, checked, same⟩
        · rcases Prod.mk.inj (Action.mapError_eq_ok_iff.mp checked) with ⟨passed, rfl⟩
          rcases Action.bind_cases rest with ⟨_, _, _, impossible⟩ | ⟨_, changed, -⟩
          · cases impossible
          · rcases Action.exists_of_atomically_error changed with ⟨_, changing⟩
            exact absurd changing (rewriting_ne_error _ (consistent.renewals renewals).acyclic
              (renewals.refreshed.eq_none_iff.not.mpr (filed ▸ nofun)) (independent_of_ensureAcyclic passed))
        · cases same
          rcases Action.mapError_eq_error_iff.mp checked with ⟨error, refused, rfl⟩
          rcases ensureAcyclic_eq_error (foreign id rfl) (Prod.mk.inj refused).1 with
            ⟨culprit, member, rfl, depends⟩
          rw [renewals.refreshed.linkList] at depends
          exact .inr (.inr ⟨formula, evaluated.dependencies, culprit, spelled, references, member,
            depends, rfl⟩)
      · cases same
        rcases evaluate_eq_error consistent all evaluation with
          circumstantial | ⟨fault, formulaFails, -⟩
        · exact .inl circumstantial
        · exact .inr (.inl ⟨fault, formulaFails⟩)
    · cases same
      rw [existing_eq_error found]
      exact .inl (.notFound id)
  · cases same
    rcases Action.ofExcept_mapError_eq_error_iff.mp refused with ⟨fault, -, rfl, -⟩
    exact .inr (.inl ⟨fault, rfl⟩)

/-! ## Reached states -/

theorem run_eq_error {operation : Operation}
    (failed : (operation.run settings memory).1 = .error failure) :
    operation.run settings (Faulty.mk memory []) =
      (.error failure, ⟨(operation.run settings memory).2, []⟩) := by
  rw [run_mirrors, failed]

variable {allowed : EngineSettings → Prop} {mayFail : List StoreMethod → Prop}

/-- What each operation can fail with in a state that an engine can reach, under any settings, if
the store does not fail during it. -/
theorem failures_of_reached (reached : Reached allowed mayFail memory) (settings : EngineSettings)
    (id : Int) (raw : List Char) (failure : Failure) :
    (((Operation.read id).run settings memory).1 = .error failure → Circumstantial failure) ∧
      (((Operation.recalculate id).run settings memory).1 = .error failure →
        Circumstantial failure) ∧
        (((Operation.delete id).run settings memory).1 = .error failure →
          failure = .notFound id) ∧
          (((Operation.create raw).run settings memory).1 = .error failure →
            Circumstantial failure ∨
              ∃ fault, failure = .formula fault ∧ ∀ other, fault ≠ .selfReference other) ∧
            (((Operation.update id raw).run settings memory).1 = .error failure →
              Circumstantial failure ∨ (∃ fault, failure = .formula fault) ∨
                ∃ formula ids culprit, canonical raw = .ok formula ∧ references formula = .ok ids ∧
                  culprit ∈ ids ∧ DependsOn memory.linkList culprit id ∧
                    failure = .links (.cycle culprit)) := by
  have consistent := consistent_empty.of_leads reached
  have all := allEvaluable_of_reached reached
  refine ⟨?_, ?_, ?_, ?_, ?_⟩
  · intro failed
    exact read_circumstantial consistent all (step_of_error (run_eq_error failed))
  · intro failed
    exact recalculate_circumstantial consistent all (step_of_error (run_eq_error failed))
  · intro failed
    exact delete_eq_error consistent (step_of_error (run_eq_error failed))
  · intro failed
    exact create_eq_error consistent all (step_of_error (run_eq_error failed))
  · intro failed
    exact update_eq_error consistent all (step_of_error (run_eq_error failed))

/-- Changing an entry so that it would refer to what depends on it is refused, and reading what
refers to a deleted entry finds that entry missing. -/
theorem failures_of_reached_changedStore :
    Reached (fun _ => True) (fun _ => True) changedStore ∧
      ((Operation.update 1 "\x7b2\x7d".toList).run {} changedStore).1 =
          .error (.links (.cycle 2)) ∧
        DependsOn changedStore.linkList 2 1 ∧
          ((Operation.read 2).run {} deletedStore).1 = .error (.notFound 1) ∧
            Circumstantial (.notFound 1) := by
  have reached : Reached (fun _ => True) (fun _ => True) changedStore :=
    leads_runAll trivial (fun _ => trivial) _ _
  have reachedLater : Reached (fun _ => True) (fun _ => True) deletedStore :=
    reached.of_leads (leads_runAll trivial (fun _ => trivial) _ _)
  have refused : ((Operation.update 1 "\x7b2\x7d".toList).run {} changedStore).1 =
      .error (.links (.cycle 2)) := eq_error_of_map (fun _ => ()) (by decide +kernel)
  have missing : ((Operation.read 2).run {} deletedStore).1 = .error (.notFound 1) :=
    eq_error_of_map (fun _ => ()) (by decide +kernel)
  have read := (failures_of_reached reachedLater {} 2 [] _).1 missing
  rcases (failures_of_reached reached {} 1 _ _).2.2.2.2 refused with
    impossible | ⟨_, impossible⟩ | ⟨_, _, culprit, -, -, -, depends, same⟩
  · cases impossible
  · cases impossible
  · cases same
    exact ⟨reached, refused, depends, missing, read⟩

end Engine

end Formulary
