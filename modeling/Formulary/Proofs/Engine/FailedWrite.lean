import Formulary.Proofs.Engine.Change

/-!
# Writes that fail

A creation, a change or a deletion that fails takes back whatever it has written itself. What stays
is only what reading did on the way: stale entries may have become fresh. This is so of any store
content, even if its links or its formulas run in a circle, and whatever operations of the store
fail.
-/

namespace Formulary.Engine

/-- The operations that are asked to change what is stored. -/
def Operation.IsWrite : Operation → Prop
  | .create _ | .update _ _ | .delete _ => True
  | .read _ | .recalculate _ => False

variable {settings : EngineSettings} {memory after : Memory} {failing : List StoreMethod}
  {operation : Operation} {failure : Failure}

theorem runFailing_eq {outcome : Except Failure Answer}
    (run : operation.runFailing settings failing memory = (outcome, after)) :
    ∃ final, operation.run settings (Faulty.mk memory failing) = (outcome, final) ∧
      after = final.inner := by
  rcases Prod.mk.inj run with ⟨rfl, rfl⟩
  exact ⟨_, rfl, rfl⟩

/-- An operation fails where its step fails, and leaves what the step leaves. -/
theorem step_of_error {α : Type} {step : Action (Faulty Memory) Failure α} {answer : α → Answer}
    {state final : Faulty Memory}
    (run : (step >>= fun result => pure (answer result)) state = (.error failure, final)) :
    step state = (.error failure, final) := by
  rcases Action.bind_cases run with ⟨_, _, _, impossible⟩ | ⟨_, failed, same⟩
  · cases impossible
  · cases same
    exact failed

/-- A write that fails has renewed stale entries, which got fresh values and kept their formulas, and
nothing else; a deletion that fails has done nothing at all. -/
theorem failed_write_renews (isWrite : operation.IsWrite)
    (run : operation.runFailing settings failing memory = (.error failure, after)) :
    Renewals settings.evaluator memory after ∧ Refreshed memory after ∧
      ∀ id, operation = .delete id → after = memory := by
  rcases runFailing_eq run with ⟨final, stepped, rfl⟩
  cases operation with
  | create raw =>
    rcases create_changes (step_of_error stepped) with ⟨after, rfl, -, renewals⟩
    exact ⟨renewals failure rfl, (renewals failure rfl).refreshed, nofun⟩
  | read id => exact isWrite.elim
  | update id raw =>
    rcases update_changes (step_of_error stepped) with ⟨after, rfl, -, renewals⟩
    exact ⟨renewals failure rfl, (renewals failure rfl).refreshed, nofun⟩
  | delete id =>
    obtain ⟨after, rfl, -, same⟩ :=
      delete_changes settings.evaluator (step_of_error stepped)
    cases same failure rfl
    exact ⟨.refl, .refl memory, fun _ _ => rfl⟩
  | recalculate id => exact isWrite.elim

/-- Two stale entries, the first of which is linked to itself. -/
def loopedStore : Memory :=
  ⟨.ofList [(1, ⟨"2".toList, 0, true⟩), (2, ⟨"\x7b1\x7d+1".toList, 0, true⟩)], [⟨1, 1⟩], 2⟩

/-- The first entry has been replaced and has lost its link when filing its new link fails; all of
that is taken back, but not what was evaluated on the way. -/
theorem failed_write_renews_loopedStore :
    (Operation.update 1 "\x7b2\x7d".toList).IsWrite ∧ ∃ failure after,
      (Operation.update 1 "\x7b2\x7d".toList).runFailing {} [.link] loopedStore =
          (.error failure, after) ∧
        Refreshed loopedStore after ∧ after.linkList = [⟨1, 1⟩] ∧
          after.table.find? 1 = some ⟨"2".toList, 2, false⟩ ∧
            after.table.find? 2 = some ⟨"\x7b1\x7d+1".toList, 3, false⟩ := by
  have evaluated :
      let ran := (Operation.update 1 "\x7b2\x7d".toList).runFailing {} [.link] loopedStore
      ran.1.isOk = false ∧ ran.2.linkList = [⟨1, 1⟩] ∧
        ran.2.table.find? 1 = some ⟨"2".toList, 2, false⟩ ∧
          ran.2.table.find? 2 = some ⟨"\x7b1\x7d+1".toList, 3, false⟩ := by decide +kernel
  match run : (Operation.update 1 "\x7b2\x7d".toList).runFailing {} [.link] loopedStore with
  | (.ok _, _) =>
    rw [run] at evaluated
    cases evaluated.1
  | (.error failure, after) =>
    rw [run] at evaluated
    have isWrite : (Operation.update 1 "\x7b2\x7d".toList).IsWrite := trivial
    exact ⟨isWrite, failure, after, rfl, (failed_write_renews isWrite run).2.1, evaluated.2⟩

end Formulary.Engine
