import Mathlib.Data.List.Sort
import Formulary.Proofs.Engine.Failures
import Formulary.Proofs.Engine.Interference

/-!
# Readings in turn

A formula that is handed in is evaluated by reading what its markers name, one after the other in
ascending order. This file says what that takes and what it leaves behind without the steps of an
evaluation, so that the effects of operations can be said in the same terms. The main statement is
`evaluate_eq_ok_iff`.
-/

namespace Formulary

/-- Sets with the same members are the same. -/
theorem IdSet.eq_of_mem_iff {ids others : IdSet} (same : ∀ id, id ∈ ids ↔ id ∈ others) :
    ids = others := by
  obtain ⟨listed, ascending⟩ := ids
  obtain ⟨listedOthers, ascendingOthers⟩ := others
  cases ascending.eq_of_mem_iff ascendingOthers same
  rfl

namespace Formula

/-! ## Markers -/

/-- Every marker of a text names an identity, and together they name these. -/
structure MarkersName (text : List Char) (ids : IdSet) : Prop where
  sound : ∀ digits, .marker digits ∈ segments text → ∃ id, markerId? digits = some id
  mem_iff : ∀ id, id ∈ ids ↔ Names text id

theorem references_eq_ok_iff_markersName {text : List Char} {ids : IdSet} :
    references text = .ok ids ↔ MarkersName text ids := by
  constructor
  · intro found
    rcases references_eq_ok_iff.mp found with ⟨listed, collected, -⟩
    exact ⟨exists_markedIds_iff.mp ⟨listed, collected⟩, fun _ => mem_references_iff found⟩
  · intro markersName
    rcases exists_markedIds_iff.mpr markersName.sound with ⟨listed, collected⟩
    have found := references_eq_ok_iff.mpr ⟨listed, collected, rfl⟩
    have same : IdSet.ofList listed = ids := IdSet.eq_of_mem_iff fun id =>
      (mem_references_iff found).trans (markersName.mem_iff id).symm
    rw [found, same]

end Formula

namespace Engine

open Links

variable {settings : EngineSettings} {memory before middle after : Memory} {id : Int}
  {ids : List Int} {values : List (Int × Float)} {formula : List Char}

/-! ## What becomes of entries -/

/-- The entry under an identity is what it was, or it was stale and has been evaluated anew with the
formula that it had. -/
def KeptOrRefreshed (before after : Memory) (id : Int) : Prop :=
  after.table.find? id = before.table.find? id ∨
    ∃ old result, before.table.find? id = some old ∧ old.stale = true ∧
      after.table.find? id = some ⟨old.formula, result, false⟩

/-- The entry under an identity is stale, and otherwise what it was. -/
def MarkedStale (before after : Memory) (id : Int) : Prop :=
  ∃ old, before.table.find? id = some old ∧ after.table.find? id = some { old with stale := true }

theorem KeptOrRefreshed.eq_none_iff (kept : KeptOrRefreshed before after id) :
    after.table.find? id = none ↔ before.table.find? id = none := by
  rcases kept with same | ⟨old, result, filed, -, renewed⟩
  · rw [same]
  · rw [filed, renewed]
    exact ⟨nofun, nofun⟩

/-- What is marked in a store that still has an entry as it was before is marked as it was before. -/
theorem MarkedStale.of_invalidated {which : Int → Prop}
    (invalidated : Invalidated which middle after) (isWhich : which id)
    (same : middle.table.find? id = before.table.find? id)
    (filed : ∃ old, before.table.find? id = some old) : MarkedStale before after id := by
  rcases filed with ⟨old, filed⟩
  have stale := invalidated.within id isWhich
  rw [same, filed] at stale
  exact ⟨old, filed, stale⟩

theorem MarkedStale.eq_none_iff (marked : MarkedStale before after id) :
    after.table.find? id = none ↔ before.table.find? id = none := by
  rcases marked with ⟨old, filed, stale⟩
  rw [filed, stale]
  exact ⟨nofun, nofun⟩

/-! ## Rows of readings -/

/-- These calculations have been read one after the other. Each reading has answered one of these
values, and the last of them has left the second store. -/
inductive ReadInTurn (settings : EngineSettings) :
    Memory → List Int → List (Int × Float) → Memory → Prop where
  | done (memory : Memory) : ReadInTurn settings memory [] [] memory
  | next {memory middle after : Memory} {id : Int} {calculation : Calculation} {rest : List Int}
      {values : List (Int × Float)} :
      Engine.read settings id memory = (.ok calculation, middle) →
        ReadInTurn settings middle rest values after →
          ReadInTurn settings memory (id :: rest) ((id, calculation.result) :: values) after

theorem fetchAll_eq_ok_iff :
    Formula.fetchAll (fun id => do return (← Engine.read settings id).result) ids memory =
      (.ok values, after) ↔ ReadInTurn settings memory ids values after := by
  induction ids generalizing memory values with
  | nil =>
    constructor
    · intro run
      cases run
      exact .done _
    · rintro ⟨⟩
      rfl
  | cons id rest inductionHypothesis =>
    rw [Formula.fetchAll]
    constructor
    · intro run
      rcases Action.bind_eq_ok_iff.mp run with ⟨value, middle, readRun, restRun⟩
      rcases Action.bind_eq_ok_iff.mp readRun with ⟨calculation, _, readOne, valueRun⟩
      cases valueRun
      rcases Action.bind_eq_ok_iff.mp restRun with ⟨others, _, fetched, last⟩
      cases last
      exact .next readOne (inductionHypothesis.mp fetched)
    · intro inTurn
      cases inTurn with
      | next readOne inTurn =>
        have valued : (do return (← Engine.read settings id).result : Action Memory Failure Float)
            memory = _ := Action.bind_of_ok readOne
        exact (Action.bind_of_ok valued).trans
          (Action.bind_of_ok (inductionHypothesis.mpr inTurn))

theorem ReadInTurn.map_fst (inTurn : ReadInTurn settings memory ids values after) :
    values.map Prod.fst = ids := by
  induction inTurn with
  | done => rfl
  | next _ _ inductionHypothesis => rw [List.map_cons, inductionHypothesis]

theorem ReadInTurn.renewals (inTurn : ReadInTurn settings before ids values after) :
    Renewals settings.evaluator before after := by
  induction inTurn with
  | done => exact .refl
  | next readOne _ inductionHypothesis =>
    rcases read_renews settings (read_faultless_iff.mpr readOne) with ⟨_, same, renewals, -, -⟩
    cases same
    exact renewals.trans inductionHypothesis

/-- Reading what neither is a calculation nor depends on it leaves that calculation as it was, and
everything that depends on it. -/
theorem ReadInTurn.upstream_unchanged {origin other : Int} (consistent : Consistent before)
    (inTurn : ReadInTurn settings before ids values after)
    (independent : ∀ id ∈ ids, id ≠ origin ∧ ¬DependsOn before.linkList id origin)
    (upstream : other = origin ∨ DependsOn before.linkList other origin) :
    after.table.find? other = before.table.find? other := by
  induction inTurn with
  | done => rfl
  | @next before middle after id calculation rest values readOne inTurn inductionHypothesis =>
    have run := read_faultless_iff.mpr readOne
    rcases read_renews settings run with ⟨_, same, renewals, -, -⟩
    cases same
    rcases independent id List.mem_cons_self with ⟨different, independentId⟩
    have unread : other ≠ id ∧ ¬DependsOn before.linkList id other := by
      rcases upstream with rfl | depends
      · exact ⟨different.symm, independentId⟩
      · constructor
        · rintro rfl
          exact independentId depends
        · exact fun reaches => independentId (reaches.trans depends)
    have sameLinks := renewals.refreshed.linkList
    rw [← sameLinks] at upstream
    rw [inductionHypothesis (consistent.renewals renewals) _ upstream]
    · exact confined_refreshWithin settings settings.maxDepth [] consistent run other unread.1
        unread.2
    · rw [sameLinks]
      exact fun id inRest => independent id (List.mem_cons_of_mem _ inRest)

theorem WellLinked.filed_of_dependsOn (linked : WellLinked memory) {other : Int}
    (depends : DependsOn memory.linkList id other) : ∃ entry, memory.table.find? id = some entry := by
  rcases dependsOn_iff.mp depends with ⟨next, link, -⟩
  exact Option.ne_none_iff_exists'.mp (linked.filed id next link)

/-! ## Evaluating by readings in turn -/

/-- What the markers of a formula name can be read in turn, and the formula has this value by what
is answered. -/
structure EvaluatesInTurn (settings : EngineSettings) (memory : Memory) (formula : List Char)
    (ids : IdSet) (result : Float) (after : Memory) : Prop where
  markers : Formula.MarkersName formula ids
  computed : ∃ values, ReadInTurn settings memory ids.toList values after ∧
    settings.evaluator.evaluate
      (Formula.substitute (Table.ofList values).find? (Formula.segments formula)) = .ok result

/-- By values for all that it refers to, a formula has the value of its text with these filled
in. -/
theorem recompute_eq_ok_iff {evaluator : Formula.Evaluator} {self : Option Int}
    {evaluated : Evaluated} {ids : IdSet} (found : Formula.dependencies formula self = .ok ids)
    (complete : values.map Prod.fst = ids.toList) :
    recompute evaluator formula self (Table.ofList values) = .ok evaluated ↔
      evaluated.dependencies = ids ∧ evaluator.evaluate
        (Formula.substitute (Table.ofList values).find? (Formula.segments formula)) =
          .ok evaluated.result := by
  rw [recompute_of_given found (valued_of_complete complete)]
  obtain ⟨result, dependencies⟩ := evaluated
  cases evaluator.evaluate
      (Formula.substitute (Table.ofList values).find? (Formula.segments formula)) with
  | ok value => simp [Except.map, and_comm, eq_comm]
  | error fault => simp [Except.map]

/-- Evaluating a formula answers exactly if what its markers name can be read in turn, none of it is
the calculation that the formula is for, and the formula has a value by what is answered. -/
theorem evaluate_eq_ok_iff {self : Option Int} {evaluated : Evaluated} :
    evaluate settings formula self memory = (.ok evaluated, after) ↔
      (∀ id ∈ self, id ∉ evaluated.dependencies) ∧
        EvaluatesInTurn settings memory formula evaluated.dependencies evaluated.result after := by
  constructor
  · intro run
    rcases Action.bind_eq_ok_iff.mp run with ⟨ids, state, found, rest⟩
    rcases Action.ofExcept_mapError_eq_ok_iff.mp found with ⟨sound, rfl⟩
    rcases Action.bind_eq_ok_iff.mp rest with ⟨values, state, fetched, computed⟩
    rcases Prod.mk.inj computed with ⟨recomputed, rfl⟩
    have inTurn := fetchAll_eq_ok_iff.mp fetched
    rcases (recompute_eq_ok_iff sound inTurn.map_fst).mp recomputed with ⟨rfl, valued⟩
    rcases Formula.dependencies_eq_ok_iff.mp sound with ⟨references, foreign⟩
    exact ⟨foreign, Formula.references_eq_ok_iff_markersName.mp references, values, inTurn, valued⟩
  · rintro ⟨foreign, markers, values, inTurn, valued⟩
    have sound := Formula.dependencies_eq_ok_iff.mpr
      ⟨Formula.references_eq_ok_iff_markersName.mpr markers, foreign⟩
    have found : (Action.ofExcept ((Formula.dependencies formula self).mapError .formula) :
        Action Memory Failure IdSet) memory = (.ok evaluated.dependencies, memory) :=
      Action.ofExcept_mapError_eq_ok_iff.mpr ⟨sound, rfl⟩
    have recomputed := (recompute_eq_ok_iff sound inTurn.map_fst).mpr ⟨rfl, valued⟩
    apply (Action.bind_of_ok found).trans
    apply (Action.bind_of_ok (fetchAll_eq_ok_iff.mpr inTurn)).trans
    rw [Action.ofExcept_apply, recomputed]

variable {ids : IdSet} {result : Float}

theorem EvaluatesInTurn.refreshed
    (evaluates : EvaluatesInTurn settings before formula ids result after) :
    Refreshed before after := by
  rcases evaluates.computed with ⟨values, inTurn, -⟩
  exact inTurn.renewals.refreshed

/-- Seen from a store that could fail, the evaluation answers as well. -/
theorem EvaluatesInTurn.evaluation
    (evaluates : EvaluatesInTurn settings before formula ids result after) (self : Option Int)
    (foreign : ∀ id ∈ self, id ∉ ids) :
    evaluate settings formula self (Faulty.mk before []) =
      (.ok ⟨result, ids⟩, ⟨after, []⟩) := by
  rw [evaluate_mirrors]
  exact mirrored_iff.mpr (evaluate_eq_ok_iff.mpr ⟨foreign, evaluates⟩)

/-- What has been read in turn is filed. -/
theorem EvaluatesInTurn.filed
    (evaluates : EvaluatesInTurn settings before formula ids result after) (member : id ∈ ids) :
    before.table.find? id ≠ none := by
  rcases evaluate_renews (evaluates.evaluation none nofun) with ⟨_, same, -, byFresh⟩
  cases same
  rcases (byFresh _ rfl).fresh member with ⟨found, filed, -⟩
  intro absent
  exact nomatch filed.symm.trans (evaluates.refreshed.eq_none_iff.mpr absent)

/-! ## A store of two pairs -/

/-- Two entries with one that refers to each of them. The first of these is stale, because what it
refers to has been changed. -/
def layeredStore : Memory :=
  runAll {}
    [(.create "5".toList, []), (.create "\x7b1\x7d+1".toList, []), (.update 1 "7".toList, []),
      (.create "4".toList, []), (.create "\x7b3\x7d*2".toList, [])] Memory.empty

theorem reached_layeredStore : Reached (fun _ => True) (fun _ => True) layeredStore :=
  leads_runAll trivial (fun _ => trivial) _ _

theorem dependsOn_layeredStore : DependsOn layeredStore.linkList 4 3 :=
  .of_mem (by decide +kernel)

end Engine

end Formulary
