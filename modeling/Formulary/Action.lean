/-!
# Steps that may fail

A step works on a state. It ends with an answer or an error, and in both cases leaves a state behind:
what was changed before an error stays changed. Only a step run by `atomically` takes its changes
back when it fails.
-/

namespace Formulary

/-- A step on states of type `σ` that answers with an `α` or fails with an `ε`. -/
def Action (σ ε α : Type) : Type :=
  σ → Except ε α × σ

namespace Action

variable {σ ε δ α β : Type}

/-- Answers and changes nothing. -/
protected def pure (answer : α) : Action σ ε α :=
  fun state => (.ok answer, state)

/-- Goes on with the answer of a step, in the state it leaves behind; an error ends both. -/
protected def bind (step : Action σ ε α) (next : α → Action σ ε β) : Action σ ε β :=
  fun state =>
    match step state with
    | (.ok answer, after) => next answer after
    | (.error error, after) => (.error error, after)

instance : Monad (Action σ ε) where
  pure := Action.pure
  bind := Action.bind

/-- Fails and changes nothing. -/
def fail (error : ε) : Action σ ε α :=
  fun state => (.error error, state)

/-- Takes the answer or the error from elsewhere and changes nothing. -/
def ofExcept (outcome : Except ε α) : Action σ ε α :=
  fun state => (outcome, state)

/-- Looks at the state and changes nothing. -/
def inspect (look : σ → Except ε α) : Action σ ε α :=
  fun state => (look state, state)

/-- The same step with its errors seen as errors of another kind. -/
def mapError (convert : ε → δ) (step : Action σ ε α) : Action σ δ α :=
  fun state => ((step state).1.mapError convert, (step state).2)

/-- All of a step or nothing of it: after an error the state is the one before the step. -/
def atomically (step : Action σ ε α) : Action σ ε α :=
  fun state =>
    match step state with
    | (.ok answer, after) => (.ok answer, after)
    | (.error error, _) => (.error error, state)

@[simp]
theorem pure_apply (answer : α) (state : σ) :
    (pure answer : Action σ ε α) state = (.ok answer, state) :=
  rfl

/-- After an answer, a sequence goes on in the state left behind. -/
theorem bind_of_ok {step : Action σ ε α} {next : α → Action σ ε β} {state after : σ} {answer : α}
    (answered : step state = (.ok answer, after)) : (step >>= next) state = next answer after := by
  show Action.bind step next state = _
  simp only [Action.bind, answered]

/-- After an error, a sequence stops in the state left behind. -/
theorem bind_of_error {step : Action σ ε α} {next : α → Action σ ε β} {state after : σ} {error : ε}
    (failed : step state = (.error error, after)) : (step >>= next) state = (.error error, after) := by
  show Action.bind step next state = _
  simp only [Action.bind, failed]

@[simp]
theorem fail_apply (error : ε) (state : σ) :
    (fail error : Action σ ε α) state = (.error error, state) :=
  rfl

@[simp]
theorem ofExcept_apply (outcome : Except ε α) (state : σ) :
    (ofExcept outcome : Action σ ε α) state = (outcome, state) :=
  rfl

@[simp]
theorem inspect_apply (look : σ → Except ε α) (state : σ) :
    (inspect look : Action σ ε α) state = (look state, state) :=
  rfl

@[simp]
theorem mapError_apply (convert : ε → δ) (step : Action σ ε α) (state : σ) :
    step.mapError convert state = ((step state).1.mapError convert, (step state).2) :=
  rfl

/-- A step run atomically has the outcome that it would have had otherwise. -/
@[simp]
theorem atomically_fst (step : Action σ ε α) (state : σ) :
    (step.atomically state).1 = (step state).1 := by
  unfold atomically
  split <;> simp_all

/-- A step that fails atomically changes nothing. -/
theorem atomically_of_error {step : Action σ ε α} {state : σ} {error : ε}
    (failed : (step state).1 = .error error) :
    step.atomically state = (.error error, state) := by
  unfold atomically
  split <;> simp_all

/-- A step that answers atomically leaves the state that it would have left otherwise. -/
theorem atomically_of_ok {step : Action σ ε α} {state : σ} {answer : α}
    (answered : (step state).1 = .ok answer) :
    step.atomically state = step state := by
  unfold atomically
  split <;> simp_all

end Action

end Formulary
