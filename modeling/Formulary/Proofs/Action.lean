import Formulary.Action

/-!
# How steps run

What a step that is put together from others did, read off its outcome and the state it left behind.
-/

namespace Formulary.Action

variable {σ ε δ α β : Type}

@[simp]
theorem mapError_ok (convert : ε → δ) (answer : α) :
    (Except.ok answer).mapError convert = .ok answer :=
  rfl

@[simp]
theorem mapError_error (convert : ε → δ) (error : ε) :
    (Except.error error : Except ε α).mapError convert = .error (convert error) :=
  rfl

/-- A sequence goes on after the answer of its first step, or ends with the error of that step. -/
theorem bind_cases {step : Action σ ε α} {next : α → Action σ ε β} {state final : σ}
    {outcome : Except ε β} (run : (step >>= next) state = (outcome, final)) :
    (∃ answer middle, step state = (.ok answer, middle) ∧ next answer middle = (outcome, final)) ∨
      ∃ error, step state = (.error error, final) ∧ outcome = .error error := by
  match first : step state with
  | (.ok answer, middle) =>
    rw [bind_of_ok first] at run
    exact .inl ⟨answer, middle, rfl, run⟩
  | (.error error, middle) =>
    rw [bind_of_error first] at run
    cases run
    exact .inr ⟨error, rfl, rfl⟩

/-- Sequences that go on alike end alike if their first steps do. -/
theorem bind_congr {step other : Action σ ε α} {next : α → Action σ ε β} {state : σ}
    (same : step state = other state) : (step >>= next) state = (other >>= next) state := by
  show Action.bind step next state = Action.bind other next state
  rw [Action.bind, Action.bind, same]

/-- Answering with something else leaves the same state. -/
theorem bind_pure_snd (step : Action σ ε α) (convert : α → β) (state : σ) :
    ((step >>= fun answer => pure (convert answer)) state).2 = (step state).2 := by
  match first : step state with
  | (.ok answer, middle) => rw [bind_of_ok first, pure_apply]
  | (.error error, middle) => rw [bind_of_error first]

/-- A sequence answers exactly if both its steps answer. -/
theorem bind_eq_ok_iff {step : Action σ ε α} {next : α → Action σ ε β} {state final : σ}
    {answer : β} :
    (step >>= next) state = (.ok answer, final) ↔
      ∃ first middle, step state = (.ok first, middle) ∧
        next first middle = (.ok answer, final) := by
  constructor
  · intro run
    rcases bind_cases run with answered | ⟨error, -, impossible⟩
    · exact answered
    · cases impossible
  · rintro ⟨first, middle, answered, rest⟩
    rw [bind_of_ok answered, rest]

/-- A step whose errors are seen as errors of another kind answers as it did. -/
theorem mapError_eq_ok_iff {convert : ε → δ} {step : Action σ ε α} {state final : σ} {answer : α} :
    step.mapError convert state = (.ok answer, final) ↔ step state = (.ok answer, final) := by
  rw [mapError_apply]
  match step state with
  | (.ok first, middle) => simp
  | (.error error, middle) => simp

theorem mapError_eq_error_iff {convert : ε → δ} {step : Action σ ε α} {state final : σ}
    {error : δ} :
    step.mapError convert state = (.error error, final) ↔
      ∃ cause, step state = (.error cause, final) ∧ error = convert cause := by
  rw [mapError_apply]
  match step state with
  | (.ok first, middle) => simp
  | (.error cause, middle) =>
    simp only [mapError_error, Prod.mk.injEq, Except.error.injEq]
    constructor
    · rintro ⟨rfl, rfl⟩
      exact ⟨cause, ⟨rfl, rfl⟩, rfl⟩
    · rintro ⟨_, ⟨rfl, rfl⟩, rfl⟩
      exact ⟨rfl, rfl⟩

theorem ofExcept_mapError_eq_ok_iff {convert : ε → δ} {source : Except ε α} {state final : σ}
    {answer : α} :
    ofExcept (source.mapError convert) state = (.ok answer, final) ↔
      source = .ok answer ∧ final = state := by
  rw [ofExcept_apply]
  cases source with
  | ok first => simp [eq_comm]
  | error error => simp

theorem ofExcept_mapError_eq_error_iff {convert : ε → δ} {source : Except ε α} {state final : σ}
    {error : δ} :
    ofExcept (source.mapError convert) state = (.error error, final) ↔
      ∃ cause, source = .error cause ∧ error = convert cause ∧ final = state := by
  rw [ofExcept_apply]
  cases source with
  | ok first => simp
  | error cause => simp [eq_comm]

/-- A step that never fails answers. -/
theorem exists_ok_of_ne_error {step : Action σ ε α} {state : σ}
    (never : ∀ error final, step state ≠ (.error error, final)) :
    ∃ answer final, step state = (.ok answer, final) := by
  match run : step state with
  | (.ok answer, final) => exact ⟨answer, final, rfl⟩
  | (.error error, final) => exact absurd run (never error final)

/-- A step that is done wholly or not at all fails as it fails itself. -/
theorem exists_of_atomically_error {step : Action σ ε α} {state final : σ} {error : ε}
    (run : step.atomically state = (.error error, final)) :
    ∃ other, step state = (.error error, other) := by
  match first : step state with
  | (.ok answer, middle) =>
    rw [atomically_of_ok (by rw [first]), first] at run
    cases run
  | (.error cause, middle) =>
    rw [atomically_of_error (by rw [first])] at run
    cases run
    exact ⟨middle, rfl⟩

/-- A step that is done wholly or not at all either answers and leaves its own state, or leaves the
state it began in. -/
theorem atomically_cases {step : Action σ ε α} {state final : σ} {outcome : Except ε α}
    (run : step.atomically state = (outcome, final)) :
    (∃ answer, outcome = .ok answer ∧ step state = (.ok answer, final)) ∨
      ∃ error, outcome = .error error ∧ final = state := by
  match first : step state with
  | (.ok answer, middle) =>
    rw [atomically_of_ok (by rw [first]), first] at run
    cases run
    exact .inl ⟨answer, rfl, rfl⟩
  | (.error error, middle) =>
    rw [atomically_of_error (by rw [first])] at run
    cases run
    exact .inr ⟨error, rfl, rfl⟩

theorem atomically_eq_ok_iff {step : Action σ ε α} {state final : σ} {answer : α} :
    step.atomically state = (.ok answer, final) ↔ step state = (.ok answer, final) := by
  constructor
  · intro run
    rcases atomically_cases run with ⟨_, same, ran⟩ | ⟨_, impossible, -⟩
    · cases same
      exact ran
    · cases impossible
  · intro run
    rw [atomically_of_ok (by rw [run]), run]

end Formulary.Action
