import Formulary.Proofs.Action
import Formulary.Proofs.Formula.Value
import Formulary.Proofs.Links.Walk

/-!
# Stores that simulate each other

Two stores whose operations do the same on related contents. What an operation answers may be seen
through a function, so that the stores may differ in what the function hides. This file says what it
means for steps and for stores, and carries it from the operations of the stores to what is built
from them by following and changing links.
-/

namespace Formulary

variable {σ τ ε δ α β γ κ : Type}

/-! ## Steps -/

/-- Two ends of steps: the answers look alike or the errors are the same, and the states left behind
are related. -/
def Agree (related : σ → τ → Prop) (view : α → γ) (first : Except ε α × σ)
    (second : Except ε α × τ) : Prop :=
  first.1.map view = second.1.map view ∧ related first.2 second.2

/-- Two steps end in agreement wherever they begin in related states. -/
def Simulates (related : σ → τ → Prop) (view : α → γ) (first : Action σ ε α)
    (second : Action τ ε α) : Prop :=
  ∀ ⦃left right⦄, related left right → Agree related view (first left) (second right)

variable {related : σ → τ → Prop} {view : α → γ} {viewNext : β → κ} {left : σ} {right : τ}

/-- Sequences agree if their first steps do and whatever follows answers that look alike. -/
theorem Agree.bind {first : Action σ ε α} {second : Action τ ε α} {firstNext : α → Action σ ε β}
    {secondNext : α → Action τ ε β} (agree : Agree related view (first left) (second right))
    (next : ∀ answer other after afterOther, first left = (.ok answer, after) →
      second right = (.ok other, afterOther) → view answer = view other →
        related after afterOther →
          Agree related viewNext (firstNext answer after) (secondNext other afterOther)) :
    Agree related viewNext ((first >>= firstNext) left) ((second >>= secondNext) right) := by
  match firstRun : first left, secondRun : second right with
  | (.ok answer, after), (.ok other, afterOther) =>
    rw [firstRun, secondRun] at agree
    rw [Action.bind_of_ok firstRun, Action.bind_of_ok secondRun]
    exact next answer other after afterOther firstRun secondRun (Except.ok.inj agree.1) agree.2
  | (.error error, after), (.error other, afterOther) =>
    rw [firstRun, secondRun] at agree
    rw [Action.bind_of_error firstRun, Action.bind_of_error secondRun]
    exact ⟨congrArg Except.error (Except.error.inj agree.1), agree.2⟩
  | (.ok answer, after), (.error other, afterOther) =>
    rw [firstRun, secondRun] at agree
    cases agree.1
  | (.error error, after), (.ok other, afterOther) =>
    rw [firstRun, secondRun] at agree
    cases agree.1

namespace Simulates

theorem pure {answer other : α} (same : view answer = view other) :
    Simulates related view (pure answer : Action σ ε α) (pure other) :=
  fun _ _ isRelated => ⟨congrArg Except.ok same, isRelated⟩

theorem fail (error : ε) :
    Simulates related view (.fail error : Action σ ε α) (.fail error) :=
  fun _ _ isRelated => ⟨rfl, isRelated⟩

theorem ofExcept {outcome other : Except ε α} (same : outcome.map view = other.map view) :
    Simulates related view (.ofExcept outcome : Action σ ε α) (.ofExcept other) :=
  fun _ _ isRelated => ⟨same, isRelated⟩

theorem inspect {look : σ → Except ε α} {otherLook : τ → Except ε α}
    (same : ∀ ⦃left right⦄, related left right →
      (look left).map view = (otherLook right).map view) :
    Simulates related view (.inspect look) (.inspect otherLook) :=
  fun _ _ isRelated => ⟨same isRelated, isRelated⟩

theorem mapError {first : Action σ ε α} {second : Action τ ε α} (convert : ε → δ)
    (simulates : Simulates related view first second) :
    Simulates related view (first.mapError convert) (second.mapError convert) := by
  intro left right isRelated
  obtain ⟨same, after⟩ := simulates isRelated
  rw [Action.mapError_apply, Action.mapError_apply]
  refine ⟨?_, after⟩
  match (first left).1, (second right).1, same with
  | .ok _, .ok _, same => exact congrArg Except.ok (Except.ok.inj same)
  | .error _, .error _, same => rw [Except.error.inj same]

theorem bind {first : Action σ ε α} {second : Action τ ε α} {firstNext : α → Action σ ε β}
    {secondNext : α → Action τ ε β} (simulates : Simulates related view first second)
    (next : ∀ answer other, view answer = view other →
      Simulates related viewNext (firstNext answer) (secondNext other)) :
    Simulates related viewNext (first >>= firstNext) (second >>= secondNext) :=
  fun _ _ isRelated => (simulates isRelated).bind
    fun answer other _ _ _ _ same after => next answer other same after

/-- After steps with the same answer. -/
theorem bind_same {first : Action σ ε α} {second : Action τ ε α} {firstNext : α → Action σ ε β}
    {secondNext : α → Action τ ε β} (simulates : Simulates related id first second)
    (next : ∀ answer, Simulates related viewNext (firstNext answer) (secondNext answer)) :
    Simulates related viewNext (first >>= firstNext) (second >>= secondNext) :=
  simulates.bind fun answer other same => (show answer = other from same) ▸ next answer

/-- The same answers look alike. -/
theorem of_same {first : Action σ ε α} {second : Action τ ε α}
    (simulates : Simulates related id first second) : Simulates related view first second := by
  intro left right isRelated
  obtain ⟨same, after⟩ := simulates isRelated
  rw [Except.map_id] at same
  exact ⟨congrArg (Except.map view) same, after⟩

theorem atomically {first : Action σ ε α} {second : Action τ ε α}
    (simulates : Simulates related view first second) :
    Simulates related view first.atomically second.atomically := by
  intro left right isRelated
  obtain ⟨same, after⟩ := simulates isRelated
  match firstRun : first left, secondRun : second right with
  | (.ok answer, _), (.ok other, _) =>
    rw [firstRun, secondRun] at same after
    rw [Action.atomically_of_ok (by rw [firstRun]), Action.atomically_of_ok (by rw [secondRun]),
      firstRun, secondRun]
    exact ⟨same, after⟩
  | (.error error, _), (.error other, _) =>
    rw [firstRun, secondRun] at same
    rw [Action.atomically_of_error (by rw [firstRun]),
      Action.atomically_of_error (by rw [secondRun])]
    exact ⟨congrArg Except.error (Except.error.inj same), isRelated⟩
  | (.ok _, _), (.error _, _) =>
    rw [firstRun, secondRun] at same
    cases same
  | (.error _, _), (.ok _, _) =>
    rw [firstRun, secondRun] at same
    cases same

end Simulates

/-! ## Stores -/

/-- An entry with its value seen through a function. -/
def Entry.mapResult (view : Float → Float) (entry : Entry) : Entry :=
  { entry with result := view entry.result }

/-- A calculation with its value seen through a function. -/
def Calculation.mapResult (view : Float → Float) (calculation : Calculation) : Calculation :=
  { calculation with result := view calculation.result }

/-- Two stores do the same on related contents, apart from what `view` hides of the values filed. It
hides nothing that can be seen in a formula, so at most the sign of a zero. -/
structure StoreSimulation (σ τ : Type) [Store σ] [Store τ] where
  related : σ → τ → Prop
  view : Float → Float
  withoutZeroSign_view : ∀ value,
    Formula.withoutZeroSign (view value) = Formula.withoutZeroSign value
  save : ∀ entry, Simulates related id (Store.save (σ := σ) entry) (Store.save entry)
  fetch : ∀ id, Simulates related (Option.map (Entry.mapResult view))
    (Store.fetchRow (σ := σ) id) (Store.fetchRow id)
  replace : ∀ calculation other, calculation.mapResult view = other.mapResult view →
    Simulates related id (Store.replace (σ := σ) calculation) (Store.replace other)
  remove : ∀ key, Simulates related id (Store.remove (σ := σ) key) (Store.remove key)
  link : ∀ link, Simulates related id (Store.link (σ := σ) link) (Store.link link)
  unlink : ∀ origin, Simulates related id (Store.unlink (σ := σ) origin) (Store.unlink origin)
  dependents : ∀ {left right}, related left right →
    ∀ id, Store.dependents left id = Store.dependents right id
  rows : ∀ {left right}, related left right →
    (Store.rows left).map (Prod.map id (Entry.mapResult view)) =
      (Store.rows right).map (Prod.map id (Entry.mapResult view))
  links : ∀ {left right}, related left right → Store.links left = Store.links right

theorem StoreSimulation.withoutZeroSign_eq [Store σ] [Store τ] (simulation : StoreSimulation σ τ)
    {value other : Float} (same : simulation.view value = simulation.view other) :
    Formula.withoutZeroSign value = Formula.withoutZeroSign other := by
  rw [← simulation.withoutZeroSign_view value, same, simulation.withoutZeroSign_view]

/-- Entries that look alike differ in their values at most. -/
theorem Entry.mapResult_eq_iff {view : Float → Float} {entry other : Entry} :
    entry.mapResult view = other.mapResult view ↔
      entry.formula = other.formula ∧ view entry.result = view other.result ∧
        entry.stale = other.stale := by
  simp only [Entry.mapResult, Entry.mk.injEq]

/-! ## Links -/

namespace Links

variable [Store σ] [Store τ] (simulation : StoreSimulation σ τ)

theorem addAll_simulates (origin : Int) (ids : List Int) :
    Simulates simulation.related id (addAll (σ := σ) origin ids) (addAll origin ids) := by
  induction ids with
  | nil => exact .pure rfl
  | cons first rest inductionHypothesis =>
    exact .bind_same (simulation.link _) fun _ => inductionHypothesis

theorem record_simulates (origin : Int) (dependencies : IdSet) :
    Simulates simulation.related id (record (σ := σ) origin dependencies)
      (record origin dependencies) :=
  .mapError _ (.bind_same (simulation.unlink origin) fun _ =>
    addAll_simulates simulation origin dependencies.toList)

variable {simulation} {left : σ} {right : τ}

theorem downstreamOrder_eq (isRelated : simulation.related left right) (origin : Int) :
    downstreamOrder left origin = downstreamOrder right origin := by
  rw [downstreamOrder, downstreamOrder, funext (simulation.dependents isRelated),
    simulation.links isRelated]

theorem downstream_eq (isRelated : simulation.related left right) (origin : Int) :
    downstream left origin = downstream right origin := by
  rw [downstream, downstream, downstreamOrder_eq isRelated]

theorem ensureAcyclic_eq (isRelated : simulation.related left right) (origin : Int)
    (dependencies : IdSet) :
    ensureAcyclic origin dependencies left = ensureAcyclic origin dependencies right := by
  rw [ensureAcyclic, ensureAcyclic, downstream_eq isRelated]

variable (simulation)

theorem markStale_simulates (key : Int) :
    Simulates simulation.related id (markStale (σ := σ) key) (markStale key) := by
  apply Simulates.bind (simulation.fetch key)
  intro found other same
  match found, other, same with
  | none, none, _ => exact .pure rfl
  | some entry, some other, same =>
    obtain ⟨sameFormula, sameValue, sameMark⟩ :=
      Entry.mapResult_eq_iff.mp (Option.some.inj same)
    cases stale : other.stale with
    | true =>
      simp only [stale, sameMark]
      exact .pure rfl
    | false =>
      simp only [stale, sameMark]
      refine .bind_same (simulation.replace _ _ ?_) fun _ => .pure rfl
      simp only [Calculation.mapResult, sameFormula, sameValue]

theorem markReached_simulates (origin : Int) (unvisited queue : List Int) :
    Simulates simulation.related id (markReached (σ := σ) origin unvisited queue)
      (markReached origin unvisited queue) := by
  induction unvisited, queue using visit_induction with
  | empty unvisited =>
    rw [markReached_nil, markReached_nil]
    exact .pure rfl
  | visit unvisited node rest waits inductionHypothesis =>
    by_cases isOrigin : node = origin
    · rw [isOrigin, markReached_cons_self, markReached_cons_self]
      exact .fail _
    · rw [markReached_cons_of_mem isOrigin waits, markReached_cons_of_mem isOrigin waits]
      exact .bind_same (.mapError _ (markStale_simulates simulation node)) fun present =>
        .bind_same (.mapError _ (.inspect fun _ _ isRelated =>
          congrArg (Except.map id) (simulation.dependents isRelated node))) fun following =>
          .bind_same (inductionHypothesis following) fun _ => .pure rfl
  | pass unvisited node rest visited inductionHypothesis =>
    by_cases isOrigin : node = origin
    · rw [isOrigin, markReached_cons_self, markReached_cons_self]
      exact .fail _
    · rw [markReached_cons_of_not_mem isOrigin visited,
        markReached_cons_of_not_mem isOrigin visited]
      exact inductionHypothesis

theorem cascade_simulates (origin : Int) :
    Simulates simulation.related id (cascade (σ := σ) origin) (cascade origin) :=
  .bind_same (.mapError _ (.inspect fun _ _ isRelated =>
    congrArg (Except.map id) (simulation.dependents isRelated origin))) fun direct =>
    .bind_same (.inspect fun _ _ isRelated =>
      congrArg (fun links : List Link => Except.ok (links.map Link.origin))
        (simulation.links isRelated)) fun origins =>
      markReached_simulates simulation origin origins direct

end Links

end Formulary
