import Formulary.Engine.Script
import Formulary.Proofs.Formula.Reference
import Formulary.Proofs.Store.Simulation

/-!
# Engines on stores that simulate each other

What an engine does follows from what its store does: on two stores that simulate each other every
operation ends in agreement, and so does every script. Only recalculating looks at a value itself,
and not at its place in a formula; there the stores have to agree on whether the value has moved.
-/

namespace Formulary

variable {σ τ ε κ : Type} {related : σ → τ → Prop} {left : σ} {right : τ}

/-! ## Values -/

/-- Looking up and seeing through a function can change places. -/
theorem Table.map_find?_ofList {α β : Type} (view : α → β) (entries : List (Int × α)) (key : Int) :
    ((Table.ofList entries).find? key).map view =
      (Table.ofList (entries.map (Prod.map id view))).find? key := by
  have fromStart : ∀ (start : Table α) (startView : Table β),
      (∀ key, (start.find? key).map view = startView.find? key) → ∀ key,
        ((entries.foldl (fun table entry => table.insert entry.1 entry.2) start).find? key).map view =
          ((entries.map (Prod.map id view)).foldl (fun table entry => table.insert entry.1 entry.2)
            startView).find? key := by
    induction entries with
    | nil => exact fun _ _ same => same
    | cons entry rest inductionHypothesis =>
      intro start startView same
      apply inductionHypothesis
      intro key
      rw [Table.find?_insert, Table.find?_insert]
      by_cases isFirst : key = entry.1
      · simp [isFirst]
      · simp [isFirst, same]
  exact fromStart .empty .empty (fun _ => rfl) key

theorem Table.map_find?_congr {α β : Type} {view : α → β} {entries others : List (Int × α)}
    (same : entries.map (Prod.map id view) = others.map (Prod.map id view)) (key : Int) :
    ((Table.ofList entries).find? key).map view = ((Table.ofList others).find? key).map view := by
  rw [Table.map_find?_ofList, Table.map_find?_ofList, same]

theorem fetchAll_simulates {view : Float → κ} {fetch : Int → Action σ ε Float}
    {fetchOther : Int → Action τ ε Float}
    (simulates : ∀ key, Simulates related view (fetch key) (fetchOther key)) (ids : List Int) :
    Simulates related (List.map (Prod.map id view)) (Formula.fetchAll fetch ids)
      (Formula.fetchAll fetchOther ids) := by
  induction ids with
  | nil => exact .pure rfl
  | cons first rest inductionHypothesis =>
    exact .bind (simulates first) fun value other same =>
      .bind inductionHypothesis fun values others sameRest =>
        .pure (by simp only [List.map_cons, Prod.map, same, sameRest])

/-- The sign of a zero among the values that are written in makes no difference. -/
theorem substitute_congr_withoutZeroSign {valueOf otherOf : Int → Option Float}
    (same : ∀ key, (valueOf key).map Formula.withoutZeroSign =
      (otherOf key).map Formula.withoutZeroSign) (segments : List Formula.Segment) :
    Formula.substitute valueOf segments = Formula.substitute otherOf segments := by
  refine List.flatMap_congr fun segment _ => ?_
  cases segment with
  | plain c => rfl
  | marker digits =>
    cases named : Formula.markerId? digits with
    | none => simp [named]
    | some key =>
      simp only [named, Option.bind_some]
      have sameKey := same key
      cases given : valueOf key with
      | none =>
        rw [given] at sameKey
        rw [Option.map_eq_none_iff.mp sameKey.symm]
      | some value =>
        rw [given] at sameKey
        rcases Option.map_eq_some_iff.mp sameKey.symm with ⟨other, givenOther, sameSign⟩
        rw [givenOther]
        show Formula.valueText value = Formula.valueText other
        rw [← Formula.valueText_withoutZeroSign, ← sameSign, Formula.valueText_withoutZeroSign]

theorem map_givenValue {view : Float → κ} (values : Table Float) (key : Int) :
    (givenValue values key).map view =
      ((values.find? key).map view).elim (.error (.notFound key)) .ok := by
  cases given : values.find? key with
  | none => rw [givenValue, given]; rfl
  | some value => rw [givenValue, given]; rfl

/-- The sign of a zero among the given values makes no difference. -/
theorem recompute_congr {values others : Table Float}
    (same : ∀ key, (values.find? key).map Formula.withoutZeroSign =
      (others.find? key).map Formula.withoutZeroSign)
    (evaluator : Formula.Evaluator) (text : List Char) (self : Option Int) :
    recompute evaluator text self values = recompute evaluator text self others := by
  have given : ∀ key, Simulates (fun _ _ : Unit => True) Formula.withoutZeroSign
      (.ofExcept (givenValue values key)) (.ofExcept (givenValue others key)) := by
    refine fun key => .ofExcept ?_
    rw [map_givenValue, map_givenValue, same]
  have resolved : Simulates (fun _ _ : Unit => True) id
      (Formula.resolve .formula text self fun key => .ofExcept (givenValue values key))
      (Formula.resolve .formula text self fun key => .ofExcept (givenValue others key)) :=
    .bind_same (.ofExcept rfl) fun ids =>
      .bind (fetchAll_simulates given ids.toList) fun found foundOther sameFound => by
        rw [substitute_congr_withoutZeroSign (Table.map_find?_congr sameFound)]
        exact .pure rfl
  have sameText := (@resolved () () trivial).1
  simp only [Except.map_id, id] at sameText
  simp only [recompute, sameText]

/-! ## Fresh values -/

namespace Engine

variable [Store σ] [Store τ] (simulation : StoreSimulation σ τ)

theorem existing_simulates (key : Int) :
    Simulates simulation.related (Entry.mapResult simulation.view) (existing (σ := σ) key)
      (existing key) := by
  refine .bind (.mapError _ (simulation.fetch key)) fun found other same => ?_
  match found, other, same with
  | none, none, _ => exact .fail _
  | some entry, some other, same => exact .pure (Option.some.inj same)

variable {simulation}

theorem evaluateWith_simulates {readOne : Int → Action σ Failure Calculation}
    {readOther : Int → Action τ Failure Calculation}
    (simulates : ∀ key, Simulates simulation.related (Calculation.mapResult simulation.view)
      (readOne key) (readOther key))
    (evaluator : Formula.Evaluator) (formula : List Char) (self : Option Int) :
    Simulates simulation.related id (evaluateWith evaluator readOne formula self)
      (evaluateWith evaluator readOther formula self) := by
  refine .bind_same (.ofExcept rfl) fun ids => ?_
  have value : ∀ key, Simulates simulation.related Formula.withoutZeroSign
      (do return (← readOne key).result) (do return (← readOther key).result) := fun key =>
    .bind (simulates key) fun calculation other same =>
      .pure (simulation.withoutZeroSign_eq (congrArg (·.result) same))
  refine .bind (fetchAll_simulates value ids.toList) fun found foundOther same => ?_
  rw [recompute_congr (Table.map_find?_congr same)]
  exact .ofExcept rfl

theorem readWith_simulates {refreshOne : Int → Entry → Action σ Failure Calculation}
    {refreshOther : Int → Entry → Action τ Failure Calculation}
    (simulates : ∀ key entry other,
      Entry.mapResult simulation.view entry = Entry.mapResult simulation.view other →
        Simulates simulation.related id (refreshOne key entry) (refreshOther key other))
    (key : Int) :
    Simulates simulation.related (Calculation.mapResult simulation.view)
      (readWith refreshOne key) (readWith refreshOther key) := by
  refine .bind (existing_simulates simulation key) fun entry other same => ?_
  obtain ⟨sameFormula, sameValue, sameMark⟩ := Entry.mapResult_eq_iff.mp same
  cases stale : other.stale with
  | true =>
    simp only [sameMark, stale]
    exact (simulates key entry other same).of_same
  | false =>
    simp only [sameMark, stale]
    refine .pure ?_
    simp only [Calculation.mapResult, Entry.withId, sameFormula, sameValue, sameMark]

variable (simulation) (settings : EngineSettings)

/-- Evaluating entries that look alike anew gives the same value and files it. -/
theorem refreshWithin_simulates (levels : Nat) (chain : List Int) (key : Int) (entry other : Entry)
    (same : entry.mapResult simulation.view = other.mapResult simulation.view) :
    Simulates simulation.related id (refreshWithin (σ := σ) settings levels chain key entry)
      (refreshWithin settings levels chain key other) := by
  obtain ⟨sameFormula, -, -⟩ := Entry.mapResult_eq_iff.mp same
  induction levels generalizing chain key entry other with
  | zero =>
    rw [refreshWithin, refreshWithin]
    split
    · exact .fail _
    · exact .fail _
  | succ levels inductionHypothesis =>
    rw [refreshWithin, refreshWithin, sameFormula]
    split
    · exact .fail _
    · have reads := readWith_simulates fun next found foundOther alike =>
        inductionHypothesis (key :: chain) next found foundOther alike
          (Entry.mapResult_eq_iff.mp alike).1
      exact .bind_same (evaluateWith_simulates reads _ _ _) fun evaluated =>
        .bind_same (.mapError _ (simulation.replace _ _ rfl)) fun _ => .pure rfl

theorem read_simulates (key : Int) :
    Simulates simulation.related (Calculation.mapResult simulation.view)
      (read (σ := σ) settings key) (read settings key) :=
  readWith_simulates (refreshWithin_simulates simulation settings settings.maxDepth []) key

theorem evaluate_simulates (formula : List Char) (self : Option Int) :
    Simulates simulation.related id (evaluate (σ := σ) settings formula self)
      (evaluate settings formula self) :=
  evaluateWith_simulates (read_simulates simulation settings) settings.evaluator formula self

/-! ## Operations -/

theorem recordLinks_simulates (key : Int) (dependencies : IdSet) :
    Simulates simulation.related id (recordLinks (σ := σ) key dependencies)
      (recordLinks key dependencies) :=
  .mapError _ (Links.record_simulates simulation key dependencies)

theorem cascade_simulates (key : Int) :
    Simulates simulation.related id (cascade (σ := σ) key) (cascade key) :=
  .mapError _ (Links.cascade_simulates simulation key)

theorem create_simulates (raw : List Char) :
    Simulates simulation.related id (create (σ := σ) settings raw) (create settings raw) :=
  .bind_same (.ofExcept rfl) fun formula =>
    .bind_same (evaluate_simulates simulation settings formula none) fun evaluated =>
      .bind_same (.atomically (.bind_same (.mapError _ (simulation.save _)) fun key =>
        .bind_same (recordLinks_simulates simulation key evaluated.dependencies) fun _ =>
          .pure rfl)) fun _ => .pure rfl

theorem update_simulates (key : Int) (raw : List Char) :
    Simulates simulation.related id (update (σ := σ) settings key raw) (update settings key raw) :=
  .bind_same (.ofExcept rfl) fun formula =>
    .bind (existing_simulates simulation key) fun _ _ _ =>
      .bind_same (evaluate_simulates simulation settings formula (some key)) fun evaluated =>
        .bind_same (.mapError _ (.inspect fun _ _ isRelated => congrArg (Except.map id)
            (Links.ensureAcyclic_eq isRelated key evaluated.dependencies))) fun _ =>
          .bind_same (.atomically (.bind_same (.mapError _ (simulation.replace _ _ rfl)) fun _ =>
            .bind_same (recordLinks_simulates simulation key evaluated.dependencies) fun _ =>
              .bind_same (cascade_simulates simulation key) fun _ => .pure rfl)) fun _ => .pure rfl

theorem delete_simulates (key : Int) :
    Simulates simulation.related id (delete (σ := σ) key) (delete key) :=
  .bind (existing_simulates simulation key) fun _ _ _ =>
    .atomically (.bind_same (.mapError _ (simulation.unlink key)) fun _ =>
      .bind_same (.mapError _ (simulation.remove key)) fun _ =>
        .bind_same (cascade_simulates simulation key) fun _ => .pure rfl)

/-- What is looked up as existing is what the store shows. -/
theorem existing_eq_ok {key : Int} {entry : Entry} {after : σ}
    (run : existing key left = (.ok entry, after)) :
    Store.fetch left key = .ok (some entry) ∧ after = left := by
  rcases Action.bind_eq_ok_iff.mp run with ⟨found, middle, fetched, rest⟩
  rcases Prod.mk.inj (Action.mapError_eq_ok_iff.mp fetched) with ⟨shown, rfl⟩
  cases found with
  | none => cases rest
  | some found =>
    cases rest
    exact ⟨shown, rfl⟩

/-- A recalculated value is the one filed before on both stores or on neither. -/
def SeesMoveAlike (settings : EngineSettings) (key : Int) (left : σ) (right : τ) : Prop :=
  ∀ entry other refreshed after, Store.fetch left key = .ok (some entry) →
    Store.fetch right key = .ok (some other) →
      refresh settings key entry left = (.ok refreshed, after) →
        (refreshed.result.toBits = entry.result.toBits ↔
          refreshed.result.toBits = other.result.toBits)

theorem recalculate_agrees {key : Int} (isRelated : simulation.related left right)
    (alike : SeesMoveAlike settings key left right) :
    Agree simulation.related id (recalculate settings key left) (recalculate settings key right) := by
  refine (existing_simulates simulation key isRelated).bind ?_
  intro entry other after afterOther found foundOther same _
  rcases existing_eq_ok found with ⟨shown, rfl⟩
  rcases existing_eq_ok foundOther with ⟨shownOther, rfl⟩
  have refreshes :=
    refreshWithin_simulates simulation settings settings.maxDepth [] key entry other same isRelated
  refine refreshes.bind fun refreshed _ after afterOther renewed _ sameAnswer afterRelated => ?_
  cases sameAnswer
  have moved := not_congr (alike entry other refreshed after shown shownOther renewed)
  by_cases hasMoved : refreshed.result.toBits ≠ entry.result.toBits
  · simp only [if_pos hasMoved, if_pos (moved.mp hasMoved)]
    exact (cascade_simulates simulation key).bind_same (fun _ => .pure rfl) afterRelated
  · simp only [if_neg hasMoved, if_neg (mt moved.mpr hasMoved)]
    exact Simulates.pure rfl afterRelated

/-! ## Steps of scripts -/

mutual

/-- An answer with all values in it seen through a function. -/
def Answer.mapResults (view : Float → Float) : Answer → Answer
  | .calculation calculation => .calculation (calculation.mapResult view)
  | .row found => .row (found.map (Calculation.mapResult view))
  | .several answers => .several (mapAllResults view answers)
  | .nothing => .nothing
  | .id key => .id key
  | .ids keys => .ids keys
  | .settings settings => .settings settings

/-- Answers with all values in them seen through a function. -/
def mapAllResults (view : Float → Float) : List Answer → List Answer
  | [] => []
  | answer :: rest => answer.mapResults view :: mapAllResults view rest

end

theorem command_simulates (command : Command) :
    Simulates simulation.related (Answer.mapResults simulation.view) (command.run (σ := σ))
      command.run := by
  cases command with
  | save entry => exact .bind_same (.mapError _ (simulation.save entry)) fun _ => .pure rfl
  | get key =>
    refine .bind (.mapError _ (simulation.fetch key)) fun found other same => .pure ?_
    have sameRow := congrArg (Option.map (Entry.withId · key)) same
    rw [Option.map_map, Option.map_map] at sameRow
    simp only [Answer.mapResults, Option.map_map]
    exact congrArg Answer.row sameRow
  | put calculation =>
    exact .bind_same (.mapError _ (simulation.replace _ _ rfl)) fun _ => .pure rfl
  | remove key => exact .bind_same (.mapError _ (simulation.remove key)) fun _ => .pure rfl
  | link added => exact .bind_same (.mapError _ (simulation.link added)) fun _ => .pure rfl
  | unlink origin => exact .bind_same (.mapError _ (simulation.unlink origin)) fun _ => .pure rfl
  | dependents key =>
    exact .bind_same (.mapError _ (.inspect fun _ _ isRelated =>
      congrArg (Except.map id) (simulation.dependents isRelated key))) fun _ => .pure rfl
  | record key dependencies =>
    exact .bind_same (recordLinks_simulates simulation key dependencies) fun _ => .pure rfl
  | downstream key =>
    exact .bind_same (.mapError _ (.inspect fun _ _ isRelated =>
      congrArg (Except.map id) (Links.downstream_eq isRelated key))) fun _ => .pure rfl
  | acyclic key dependencies =>
    exact .bind_same (.mapError _ (.inspect fun _ _ isRelated =>
      congrArg (Except.map id) (Links.ensureAcyclic_eq isRelated key dependencies))) fun _ =>
        .pure rfl
  | cascade key => exact .bind_same (cascade_simulates simulation key) fun _ => .pure rfl

theorem runCommands_simulates (commands : List Command) :
    Simulates simulation.related (mapAllResults simulation.view) (runCommands (σ := σ) commands)
      (runCommands commands) := by
  induction commands with
  | nil => exact .pure rfl
  | cons command rest inductionHypothesis =>
    exact .bind (command_simulates simulation command) fun answer other same =>
      .bind inductionHypothesis fun answers others sameRest =>
        .pure (by rw [mapAllResults, mapAllResults, same, sameRest])

theorem runBlock_simulates (commands : List Command) (failWith : Option Int) :
    Simulates simulation.related (Answer.mapResults simulation.view)
      (runBlock (σ := σ) commands failWith) (runBlock commands failWith) := by
  refine .atomically (.bind (runCommands_simulates simulation commands) fun answers others same => ?_)
  cases failWith with
  | some key => exact .fail _
  | none => exact .pure (congrArg Answer.several same)

/-- Every operation ends in agreement, if a recalculation sees alike whether a value has moved. -/
theorem operation_agrees (operation : Operation) (isRelated : simulation.related left right)
    (alike : ∀ key, operation = .recalculate key → SeesMoveAlike settings key left right) :
    Agree simulation.related (Answer.mapResults simulation.view) (operation.run settings left)
      (operation.run settings right) := by
  cases operation with
  | create raw =>
    exact (create_simulates simulation settings raw).bind_same (fun _ => .pure rfl) isRelated
  | read key =>
    refine (read_simulates simulation settings key).bind (fun calculation other same => ?_) isRelated
    exact .pure (congrArg Answer.calculation same)
  | update key raw =>
    exact (update_simulates simulation settings key raw).bind_same (fun _ => .pure rfl) isRelated
  | delete key =>
    exact (delete_simulates simulation key).bind_same (fun _ => .pure rfl) isRelated
  | recalculate key =>
    refine (recalculate_agrees simulation settings isRelated (alike key rfl)).bind ?_
    rintro answer _ after afterOther - - rfl afterRelated
    exact Simulates.pure rfl afterRelated

/-- Every step of a script ends in agreement, if a recalculation sees alike whether a value has
moved. -/
theorem step_agrees (step : Step) (isRelated : simulation.related left right)
    (alike : ∀ key, step = .operation (.recalculate key) →
      SeesMoveAlike settings key left right) :
    Agree simulation.related (Answer.mapResults simulation.view) (step.run settings left)
      (step.run settings right) := by
  cases step with
  | operation operation =>
    exact operation_agrees simulation settings operation isRelated fun key same =>
      alike key (congrArg Step.operation same)
  | reconfigure changed => exact ⟨rfl, isRelated⟩
  | command command => exact command_simulates simulation command isRelated
  | block commands failWith => exact runBlock_simulates simulation commands failWith isRelated

end Engine

end Formulary
