import Formulary.Proofs.Engine.Consistency
import Formulary.Proofs.Engine.FailedWrite
import Formulary.Proofs.Formula.Evaluability

/-!
# No formula is found malformed

Every formula in a reached store has been evaluated once, so it can be evaluated with all values
that its references may get. Reading therefore never finds a filed formula malformed, and creating
or changing a calculation finds its formula malformed only if a number in it is not well spelled.
-/

namespace Formulary.Engine

open Formula (Evaluable WellSpelled canonical accepted_of_canonical)

variable {evaluator : Formula.Evaluator} {settings : EngineSettings} {memory before after : Memory}
  {failing : List StoreMethod} {failure : Failure} {final : Faulty Memory} {id : Int}
  {raw formula part : List Char}

/-! ## Filed formulas -/

/-- Every filed formula can be evaluated. -/
def AllEvaluable (memory : Memory) : Prop :=
  ∀ id entry, memory.table.find? id = some entry → Evaluable entry.formula

theorem AllEvaluable.congr (all : AllEvaluable before)
    (sameFormula : ∀ id, (after.table.find? id).map (·.formula) =
      (before.table.find? id).map (·.formula)) : AllEvaluable after := by
  intro id entry filed
  have same := sameFormula id
  rw [filed, Option.map_some, eq_comm, Option.map_eq_some_iff] at same
  rcases same with ⟨old, filedOld, formula_eq⟩
  exact formula_eq ▸ all id old filedOld

theorem AllEvaluable.renewals (all : AllEvaluable before)
    (renewals : Renewals evaluator before after) : AllEvaluable after :=
  all.congr renewals.refreshed.formula

theorem AllEvaluable.insert (all : AllEvaluable before) {entry : Entry}
    (evaluable : Evaluable entry.formula)
    (table_eq : after.table = before.table.insert id entry) : AllEvaluable after := by
  intro other found filed
  rw [table_eq, Table.find?_insert] at filed
  split at filed
  · cases filed
    exact evaluable
  · exact all other found filed

/-- A formula that has a value has been accepted and evaluated. -/
theorem Evaluates.evaluable {self : Option Int} {evaluated : Evaluated}
    (evaluates : Evaluates evaluator memory formula self evaluated)
    (spelled : canonical raw = .ok formula) : Evaluable formula := by
  rcases evaluates with ⟨_, _, _, recomputed⟩
  have accepted := accepted_of_canonical spelled
  exact accepted.evaluable (accepted.wellSpelled_of_recompute recomputed)

/-- Every change keeps all formulas evaluable: it files no formula that has not been evaluated. -/
theorem AllEvaluable.change (all : AllEvaluable before) (change : Change evaluator before after) :
    AllEvaluable after := by
  cases change with
  | unchanged => exact all
  | created spelled evaluates => exact all.insert (evaluates.evaluable spelled) rfl
  | @rewritten id _ _ formula evaluated links after _ spelled evaluates _ _ invalidated =>
    have filed : AllEvaluable { before.file id ⟨formula, evaluated.result, false⟩ with
        linkList := links } := all.insert (evaluates.evaluable spelled) rfl
    exact filed.congr invalidated.formula
  | @deleted id _ links after _ _ invalidated =>
    have erased :
        AllEvaluable { before with table := before.table.erase id, linkList := links } := by
      intro other found filed
      rw [Table.find?_erase] at filed
      split at filed
      · cases filed
      · exact all other found filed
    exact erased.congr invalidated.formula
  | recalculated renewal => exact all.congr renewal.formula
  | moved renewal invalidated => exact (all.congr renewal.formula).congr invalidated.formula

variable {allowed : EngineSettings → Prop} {mayFail : List StoreMethod → Prop}

/-- In every state that an engine can reach all formulas can be evaluated. -/
theorem allEvaluable_of_reached (reached : Reached allowed mayFail memory) :
    AllEvaluable memory := by
  have both : Consistent memory ∧ AllEvaluable memory := by
    induction reached with
    | refl => exact ⟨consistent_empty, fun _ _ filed => nomatch filed⟩
    | tail _ operation settings failing _ _ inductionHypothesis =>
      rcases inductionHypothesis with ⟨consistent, all⟩
      have changes := run_changes consistent.acyclic operation settings failing
      refine ⟨consistent.changes changes, ?_⟩
      rcases changes with ⟨middle, renewals, change⟩
      exact (all.renewals renewals).change change
  exact both.2

/-! ## Failures of reading -/

/-- A way of reading that calls no text malformed as long as all filed formulas can be evaluated. -/
def FindsWellFormed (read : Int → Action (Faulty Memory) Failure Calculation) : Prop :=
  ∀ ⦃id : Int⦄ ⦃memory : Memory⦄ ⦃failing : List StoreMethod⦄ ⦃failure : Failure⦄
    ⦃final : Faulty Memory⦄,
    AllEvaluable memory → read id ⟨memory, failing⟩ = (.error failure, final) →
      NotMalformed failure

variable {chain : List Int} {read : Int → Action (Faulty Memory) Failure Calculation}

theorem FindsWellFormed.evaluateWith (findsWellFormed : FindsWellFormed read)
    (reads : Reads evaluator chain read) (all : AllEvaluable memory)
    (evaluable : Evaluable formula) {self : Option Int}
    (run : evaluateWith evaluator read formula self ⟨memory, failing⟩ = (.error failure, final)) :
    NotMalformed failure := by
  rcases reads.evaluateWith_eq_error run with
    ⟨fault, refused, rfl⟩ | ⟨ids, -, ⟨other, -, middle, renewals, failed⟩ | ⟨values, -, failed⟩⟩
  · exact notMalformed_of_dependencies refused
  · exact findsWellFormed (all.renewals renewals) failed
  · exact evaluable.notMalformed failed

theorem existing_notMalformed
    (run : existing id (Faulty.mk memory failing) = (.error failure, final)) :
    NotMalformed failure := by
  obtain ⟨-, ⟨-, _, -, same⟩ | ⟨-, -, same⟩ | ⟨-, same⟩⟩ := existing_cases run
  · cases same
  · cases same
    exact nofun
  · cases same
    exact nofun

theorem findsWellFormed_readWith
    {refresh : Int → Entry → Action (Faulty Memory) Failure Calculation}
    (refreshes : ∀ {id entry memory failing failure final}, AllEvaluable memory →
      memory.table.find? id = some entry →
        refresh id entry ⟨memory, failing⟩ = (.error failure, final) → NotMalformed failure) :
    FindsWellFormed (readWith refresh) := by
  intro id memory failing failure final all run
  rcases readWith_cases run with
    ⟨entry, filed, ⟨-, impossible, -⟩ | ⟨-, renewed⟩⟩ | ⟨cause, found, same, -⟩
  · cases impossible
  · exact refreshes all filed renewed
  · cases same
    exact existing_notMalformed found

/-- Evaluating an entry anew calls no text malformed, with any number of levels left. -/
theorem refreshWithin_notMalformed (settings : EngineSettings) (levels : Nat) (chain : List Int)
    {entry : Entry} (all : AllEvaluable memory) (filed : memory.table.find? id = some entry)
    (run : refreshWithin settings levels chain id entry ⟨memory, failing⟩ =
      (.error failure, final)) : NotMalformed failure := by
  induction levels generalizing chain id entry memory failing failure final with
  | zero =>
    rw [refreshWithin] at run
    split at run
    · cases run
      simp [NotMalformed]
    · cases run
      simp [NotMalformed]
  | succ levels inductionHypothesis =>
    have findsWellFormed := findsWellFormed_readWith (inductionHypothesis (id :: chain))
    have reads := (refreshWithin_renews settings levels (id :: chain)).readWith
    rcases refreshWithin_succ_cases run with ⟨-, same, -⟩ |
      ⟨-, _, _, evaluation, ⟨cause, rfl, same, -⟩ | ⟨_, -, ⟨-, impossible, -⟩ | ⟨same, -, -⟩⟩⟩
    · cases same
      simp [NotMalformed]
    · cases same
      exact findsWellFormed.evaluateWith reads all (all id entry filed) evaluation
    · cases impossible
    · cases same
      simp [NotMalformed]

/-- Evaluating a formula that can be evaluated calls no text malformed. -/
theorem evaluate_notMalformed (all : AllEvaluable memory) (evaluable : Evaluable formula)
    {self : Option Int}
    (run : evaluate settings formula self ⟨memory, failing⟩ = (.error failure, final)) :
    NotMalformed failure := by
  have findsWellFormed : FindsWellFormed (readWith (refresh settings)) :=
    findsWellFormed_readWith (refreshWithin_notMalformed settings settings.maxDepth [])
  exact findsWellFormed.evaluateWith (read_renews settings) all evaluable run

/-! ## Failures of filing -/

/-- A step that calls no text malformed in whatever state it is done. -/
def Sparing {α : Type} (step : Action (Faulty Memory) Failure α) : Prop :=
  ∀ ⦃state : Faulty Memory⦄ ⦃failure : Failure⦄ ⦃final : Faulty Memory⦄,
    step state = (.error failure, final) → NotMalformed failure

theorem sparing_pure {α : Type} (answer : α) : Sparing (pure answer) :=
  fun _ _ _ run => nomatch run

theorem sparing_store {α : Type} (step : Action (Faulty Memory) StoreError α) :
    Sparing (Action.mapError .store step) := by
  intro state failure final run
  rcases Action.mapError_eq_error_iff.mp run with ⟨cause, -, rfl⟩
  exact nofun

theorem sparing_links {α : Type} (step : Action (Faulty Memory) LinkError α) :
    Sparing (Action.mapError .links step) := by
  intro state failure final run
  rcases Action.mapError_eq_error_iff.mp run with ⟨cause, -, rfl⟩
  exact nofun

theorem Sparing.bind {α β : Type} {step : Action (Faulty Memory) Failure α}
    {next : α → Action (Faulty Memory) Failure β} (first : Sparing step)
    (second : ∀ answer, Sparing (next answer)) : Sparing (step >>= next) := by
  intro state failure final run
  rcases Action.bind_cases run with ⟨answer, middle, -, rest⟩ | ⟨cause, failed, same⟩
  · exact second answer rest
  · cases same
    exact first failed

theorem Sparing.atomically {α : Type} {step : Action (Faulty Memory) Failure α}
    (sparing : Sparing step) : Sparing step.atomically := by
  intro state failure final run
  rcases Action.exists_of_atomically_error run with ⟨other, failed⟩
  exact sparing failed

/-! ## Creating and changing -/

theorem create_notMalformed (all : AllEvaluable memory) (spelled : canonical raw = .ok formula)
    (evaluable : Evaluable formula)
    (run : create settings raw ⟨memory, failing⟩ = (.error failure, final)) :
    NotMalformed failure := by
  rcases Action.bind_cases run with ⟨_, state, accepted, rest⟩ | ⟨cause, refused, -⟩
  · rcases Action.ofExcept_mapError_eq_ok_iff.mp accepted with ⟨same, rfl⟩
    cases spelled.symm.trans same
    rcases Action.bind_cases rest with ⟨evaluated, state, -, rest⟩ | ⟨cause, evaluation, same⟩
    · refine Sparing.bind (Sparing.atomically ?_) (fun _ => sparing_pure _) rest
      exact (sparing_store _).bind fun _ => (sparing_links _).bind fun _ => sparing_pure _
    · cases same
      exact evaluate_notMalformed all evaluable evaluation
  · rcases Action.ofExcept_mapError_eq_error_iff.mp refused with ⟨fault, failed, -, -⟩
    cases spelled.symm.trans failed

theorem update_notMalformed (all : AllEvaluable memory) (spelled : canonical raw = .ok formula)
    (evaluable : Evaluable formula)
    (run : update settings id raw ⟨memory, failing⟩ = (.error failure, final)) :
    NotMalformed failure := by
  rcases Action.bind_cases run with ⟨_, state, accepted, rest⟩ | ⟨cause, refused, -⟩
  · rcases Action.ofExcept_mapError_eq_ok_iff.mp accepted with ⟨same, rfl⟩
    cases spelled.symm.trans same
    rcases Action.bind_cases rest with ⟨entry, state, found, rest⟩ | ⟨cause, found, same⟩
    · rcases existing_cases found with ⟨rfl, -⟩
      rcases Action.bind_cases rest with ⟨evaluated, state, -, rest⟩ | ⟨cause, evaluation, same⟩
      · refine Sparing.bind (sparing_links _) (fun _ => ?_) rest
        refine Sparing.bind (Sparing.atomically ?_) fun _ => sparing_pure _
        exact (sparing_store _).bind fun _ => (sparing_links _).bind fun _ =>
          (sparing_links _).bind fun _ => sparing_pure _
      · cases same
        exact evaluate_notMalformed all evaluable evaluation
    · cases same
      exact existing_notMalformed found
  · rcases Action.ofExcept_mapError_eq_error_iff.mp refused with ⟨fault, failed, -, -⟩
    cases spelled.symm.trans failed

/-! ## Well spelled formulas -/

theorem eq_error_of_map {α β : Type} {outcome : Except Failure α} (answer : α → β)
    (mapped : outcome.map answer = .error failure) : outcome = .error failure := by
  cases outcome with
  | error cause =>
    cases mapped
    rfl
  | ok found => cases mapped

/-- A formula that is accepted and whose numbers are well spelled is never found malformed: not by
evaluating it with whatever values, and not by creating a calculation with it or giving it to one,
in whatever state an engine has reached and whatever operations of the store fail. -/
theorem wellSpelled_never_malformed (spelled : canonical raw = .ok formula)
    (wellSpelled : WellSpelled formula) :
    (∀ evaluator self values part,
        recompute evaluator formula self values ≠ .error (.formula (.malformed part))) ∧
      ∀ memory, Reached allowed mayFail memory → ∀ settings failing part,
        ((Operation.create raw).runFailing settings failing memory).1 ≠
            .error (.formula (.malformed part)) ∧
          ∀ id, ((Operation.update id raw).runFailing settings failing memory).1 ≠
            .error (.formula (.malformed part)) := by
  have evaluable := (accepted_of_canonical spelled).evaluable wellSpelled
  refine ⟨fun evaluator self values part failed => evaluable.notMalformed failed part rfl,
    fun memory reached settings failing part => ⟨?_, fun id => ?_⟩⟩
  · intro failed
    rcases runFailing_eq (Prod.ext failed rfl) with ⟨final, run, -⟩
    have all := allEvaluable_of_reached reached
    exact create_notMalformed all spelled evaluable (step_of_error run) part rfl
  · intro failed
    rcases runFailing_eq (Prod.ext failed rfl) with ⟨final, run, -⟩
    have all := allEvaluable_of_reached reached
    exact update_notMalformed all spelled evaluable (step_of_error run) part rfl

/-- The formula that `powersText` spells. Two of its powers follow each other directly. -/
def powersFormula : List Char :=
  "2*(-\x7b1\x7d+1.5^23^0.5)-log(100;10)/\x7b2\x7d".toList

/-- A text with tokens of all kinds. -/
def powersText : List Char :=
  "2 * (-\x7b1\x7d + 1,5^23^0,5) - log(100; 10) / \x7b2\x7d".toList

theorem wellSpelled_never_malformed_powersText :
    canonical powersText = .ok powersFormula ∧ WellSpelled powersFormula ∧
      Reached (fun _ => True) (fun _ => True) changedStore ∧
        (∀ evaluator self values part,
          recompute evaluator powersFormula self values ≠ .error (.formula (.malformed part))) ∧
          ∀ failing part,
            ((Operation.create powersText).runFailing {} failing changedStore).1 ≠
                .error (.formula (.malformed part)) ∧
              ((Operation.update 2 powersText).runFailing {} failing changedStore).1 ≠
                .error (.formula (.malformed part)) := by
  have spelled : canonical powersText = .ok powersFormula := by decide +kernel
  have valued : (recompute ⟨.legacy, 512⟩ powersFormula none (.ofList [(1, 7), (2, 8)])).isOk =
      true := by decide +kernel
  have wellSpelled : WellSpelled powersFormula := by
    match recomputed :
        recompute ⟨.legacy, 512⟩ powersFormula none (.ofList [(1, 7), (2, 8)]) with
    | .ok evaluated => exact (accepted_of_canonical spelled).wellSpelled_of_recompute recomputed
    | .error failure =>
      rw [recomputed] at valued
      cases valued
  have reached : Reached (fun _ => True) (fun _ => True) changedStore :=
    leads_runAll trivial (fun _ => trivial) _ _
  rcases wellSpelled_never_malformed spelled wellSpelled with ⟨neverRecomputed, neverWritten⟩
  refine ⟨spelled, wellSpelled, reached, neverRecomputed, fun failing part => ?_⟩
  rcases neverWritten changedStore reached {} failing part with ⟨created, updated⟩
  exact ⟨created, updated 2⟩

/-- A number with two points is accepted as two numbers with nothing between them, and a digit that
is no ASCII digit as a digit. Neither can be evaluated, so that creating a calculation fails with a
failure that is nobody's fault but the engine's. -/
theorem accepted_malformed :
    (canonical "1.23.4".toList = .ok "1.23.4".toList ∧
      recompute ⟨.legacy, 512⟩ "1.23.4".toList none (.ofList []) =
          .error (.formula (.malformed "1.23.4".toList)) ∧
        ((Operation.create "1.23.4".toList).runFailing {} [] Memory.empty).1 =
          .error (.formula (.malformed "1.23.4".toList)) ∧
          (Failure.formula (.malformed "1.23.4".toList)).kind = .internal) ∧
      canonical "1+٣".toList = .ok "1+٣".toList ∧
        recompute ⟨.legacy, 512⟩ "1+٣".toList none (.ofList []) =
            .error (.formula (.malformed "٣".toList)) ∧
          ((Operation.create "1+٣".toList).runFailing {} [] Memory.empty).1 =
            .error (.formula (.malformed "٣".toList)) := by
  constructor
  · refine ⟨by decide +kernel, ?_, ?_, by decide⟩
    · exact eq_error_of_map (fun _ => ()) (by decide +kernel)
    · exact eq_error_of_map (fun _ => ()) (by decide +kernel)
  · refine ⟨by decide +kernel, ?_, ?_⟩
    · exact eq_error_of_map (fun _ => ()) (by decide +kernel)
    · exact eq_error_of_map (fun _ => ()) (by decide +kernel)

end Formulary.Engine
