import Formulary.Proofs.Engine.Simulation
import Formulary.Proofs.Store.Relational

/-!
# Interchangeable stores

A script has the same outcomes on a store in memory and on one in tables, and leaves the same
entries and links, up to the sign of zeros. The exceptions are recalculations for which only bits
that the tables do not keep tell whether the value has moved: the sign of a zero, or the bits of a
value that is no number. The value is compared with what the store gives back, so the tables may see
a move where memory sees none.

For zeros this library shows the difference. All values that are no number are one value here, so a
move from one to another cannot be seen; the main statement leaves these recalculations out.
-/

namespace Formulary.Engine

variable {σ : Type} {memory : Memory} {store : Relational} {settings : EngineSettings}

/-- What a step has answered and left behind, without the signs of zeros. -/
def observed [Store σ] (ended : Except Failure Answer × σ) :
    Except Failure Answer × List (Int × Entry) × List Link :=
  (ended.1.map (Answer.mapResults Formula.withoutZeroSign),
    (Store.rows ended.2).map (Prod.map id (Entry.mapResult Formula.withoutZeroSign)),
    Store.links ended.2)

/-- Whether a value is the one filed may turn on bits that the tables do not keep: the sign of a
zero, or the bits of what is no number. -/
def TurnsOnLostBits (filed renewed : Float) : Prop :=
  (filed = -0 ∧ (renewed == 0) = true) ∨ (filed.isNaN = true ∧ renewed.isNaN = true)

/-- Evaluating an entry anew gives a value, and only lost bits tell whether it is the one filed. -/
def MeetsLostBits (settings : EngineSettings) (memory : Memory) (key : Int) : Prop :=
  ∃ entry refreshed after, memory.table.find? key = some entry ∧
    refresh settings key entry memory = (.ok refreshed, after) ∧
      TurnsOnLostBits entry.result refreshed.result

/-- No recalculation of a script, run on a store in memory, meets lost bits. -/
def NeverMeetsLostBits (settings : EngineSettings) (memory : Memory) : List Step → Prop
  | [] => True
  | step :: rest =>
    (∀ key, step = .operation (.recalculate key) → ¬MeetsLostBits settings memory key) ∧
      NeverMeetsLostBits (step.settingsAfter settings) (step.run settings memory).2 rest

theorem eq_zero_or_eq_neg_zero {value : Float} (isZero : (value == 0) = true) :
    value = 0 ∨ value = -0 := by
  rcases Number.ofFloat_cases value with
    ⟨-, rfl⟩ | ⟨negative, -, rfl⟩ | ⟨negative, significand, exponent, bits, -, scaled, rfl⟩
  · exact absurd isZero (by decide +kernel)
  · cases (Number.beq_zero_ofMagnitude negative (Nat.le_refl _)).mp isZero
  · cases (Number.beq_zero_ofMagnitude negative scaled.bits_le).mp isZero
    cases negative with
    | false => exact .inl (by decide +kernel)
    | true => exact .inr (by decide +kernel)

/-- Unless lost bits are met, a recalculated value is the one in memory exactly if it is the one in
the tables. -/
theorem seesMoveAlike_of_not_meets {key : Int} (tabulates : Tabulates memory store)
    (notMet : ¬MeetsLostBits settings memory key) :
    SeesMoveAlike settings key memory store := by
  intro entry other refreshed after shown shownOther renewed
  have filed : memory.table.find? key = some entry := Except.ok.inj shown
  have other_eq : entry.mapResult Formula.withoutZeroSign = other := by
    have fetched := (tabulates.fetch_eq key).symm.trans shownOther
    rw [Memory.fetch, filed] at fetched
    exact Option.some.inj (Except.ok.inj fetched)
  rw [← other_eq]
  show _ ↔ refreshed.result.toBits = (Formula.withoutZeroSign entry.result).toBits
  by_cases isZero : (entry.result == 0) = true
  · rcases eq_zero_or_eq_neg_zero isZero with positive | negative
    · rw [positive, show Formula.withoutZeroSign 0 = 0 by decide +kernel]
    · have notZero : ¬(refreshed.result == 0) = true := fun zero =>
        notMet ⟨entry, refreshed, after, filed, renewed, .inl ⟨negative, zero⟩⟩
      rw [negative, show Formula.withoutZeroSign (-0) = 0 by decide +kernel]
      constructor
      · intro same
        rw [Number.eq_of_toBits_eq same] at notZero
        exact absurd (by decide +kernel) notZero
      · intro same
        rw [Number.eq_of_toBits_eq same] at notZero
        exact absurd (by decide +kernel) notZero
  · rw [Formula.withoutZeroSign, if_neg isZero]

theorem runScript_observed (tabulates : Tabulates memory store) (steps : List Step)
    (never : NeverMeetsLostBits settings memory steps) :
    (runScript settings memory steps).map observed =
      (runScript settings store steps).map observed := by
  induction steps generalizing settings memory store with
  | nil => rfl
  | cons step rest inductionHypothesis =>
    obtain ⟨sameAnswer, after⟩ := step_agrees tabulation settings step tabulates fun key same =>
      seesMoveAlike_of_not_meets tabulates (never.1 key same)
    rw [runScript, runScript, List.map_cons, List.map_cons, inductionHypothesis after never.2]
    refine congrArg (· :: _) (Prod.ext sameAnswer (Prod.ext ?_ ?_))
    · exact tabulation.rows after
    · exact tabulation.links after

/-- Every script does the same on a new store in memory and on newly made tables, as long as no
recalculation meets bits that the tables do not keep. -/
theorem runScript_interchangeable {names : TableNames}
    (created : Relational.create names = .ok store) (steps : List Step)
    (never : NeverMeetsLostBits settings Memory.empty steps) :
    (runScript settings Memory.empty steps).map observed =
      (runScript settings store steps).map observed := by
  cases Relational.eq_empty_of_create created
  exact runScript_observed tabulates_empty steps never

/-- An entry is recalculated under another policy, and then a block of commands fails. -/
def movedScript : List Step :=
  [.operation (.create "10-3-2".toList), .operation (.create "\x7b1\x7d".toList),
    .reconfigure { policy := .leftAssociative }, .operation (.recalculate 1),
    .block [.save ⟨"-0".toList, -0, false⟩, .link ⟨3, 1⟩] (some 3), .operation (.read 2)]

theorem runScript_interchangeable_movedScript :
    Relational.create .standard = .ok .empty ∧
      NeverMeetsLostBits {} Memory.empty movedScript ∧
        (runScript {} Memory.empty movedScript).map observed =
          (runScript {} Relational.empty movedScript).map observed := by
  have created : Relational.create .standard = .ok .empty := by decide
  have never : NeverMeetsLostBits {} Memory.empty movedScript := by
    refine ⟨nofun, nofun, nofun, ?_, nofun, nofun, trivial⟩
    rintro key same ⟨entry, _, _, filed, -, turns⟩
    cases same
    have value := congrArg (Option.map (·.result)) filed
    rcases turns with ⟨negative, -⟩ | ⟨notNumber, -⟩
    · rw [Option.map_some, negative] at value
      exact absurd value (by decide +kernel)
    · have isNumber := congrArg (Option.map Float.isNaN) value
      rw [Option.map_some, Option.map_some, notNumber] at isNumber
      exact absurd isNumber (by decide +kernel)
  exact ⟨created, never, runScript_interchangeable created movedScript never⟩

/-- A negative zero, to which another entry refers, is recalculated. -/
def zeroScript : List Step :=
  [.operation (.create "-0".toList), .operation (.create "\x7b1\x7d".toList),
    .operation (.recalculate 1)]

/-- Some entry has been left stale. -/
def anyStale (seen : Except Failure Answer × List (Int × Entry) × List Link) : Bool :=
  seen.2.1.any fun row => row.2.stale

theorem any_rows (store : Relational) :
    ((Store.rows store).any fun row => row.2.stale) = store.calculations.any (·.stale) := by
  show (List.mergeSort _ _).any _ = _
  rw [(List.mergeSort_perm _ _).any_eq, List.any_map]
  rfl

/-- Recalculating a negative zero marks what refers to it in the tables, but not in memory. -/
theorem zeroScript_not_interchangeable :
    Relational.create .standard = .ok .empty ∧
      (runScript {} Memory.empty zeroScript).map observed ≠
        (runScript {} Relational.empty zeroScript).map observed := by
  refine ⟨by decide, fun same => ?_⟩
  have sameStale := congrArg (fun seen => seen.getLast?.map anyStale) same
  simp only [List.getLast?_map, Option.map_map] at sameStale
  have inMemory : ∀ memory : Except Failure Answer × Memory, (anyStale ∘ observed) memory =
      memory.2.table.entries.any fun row => row.2.stale := fun _ => List.any_map
  have inTables : ∀ store : Except Failure Answer × Relational, (anyStale ∘ observed) store =
      store.2.calculations.any (·.stale) := fun store => List.any_map.trans (any_rows store.2)
  rw [funext inMemory, funext inTables] at sameStale
  exact absurd sameStale (by decide +kernel)

end Formulary.Engine
