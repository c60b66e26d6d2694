import Mathlib.Data.List.Basic
import Formulary.Engine.Refresh
import Formulary.Proofs.Action

/-!
# What a formula refers to

The identities that a formula refers to are those that its markers name, and the value that a
formula has depends on the values given for them alone.
-/

namespace Formulary

/-! ## Tables made from lists -/

namespace Table

variable {α : Type}

@[simp]
theorem find?_empty (id : Int) : (empty : Table α).find? id = none :=
  rfl

private theorem find?_foldl_insert (valueOf : Int → α) (ids : List Int) (start : Table α)
    (id : Int) :
    ((ids.map fun id => (id, valueOf id)).foldl (fun table entry => table.insert entry.1 entry.2)
        start).find? id =
      if id ∈ ids then some (valueOf id) else start.find? id := by
  induction ids generalizing start with
  | nil => simp
  | cons first rest inductionHypothesis =>
    rw [List.map_cons, List.foldl_cons, inductionHypothesis, find?_insert]
    by_cases inRest : id ∈ rest
    · simp [inRest]
    · by_cases same : id = first
      · simp [same]
      · simp [inRest, same]

/-- In the table of some identities with their values exactly these identities are found. -/
theorem find?_ofList_map (valueOf : Int → α) (ids : List Int) (id : Int) :
    (ofList (ids.map fun id => (id, valueOf id))).find? id =
      if id ∈ ids then some (valueOf id) else none :=
  find?_foldl_insert valueOf ids empty id

end Table

namespace Formula

/-! ## References -/

theorem markerId_eq_ok_iff {digits : List Char} {id : Int} :
    markerId digits = .ok id ↔ markerId? digits = some id := by
  rw [markerId]
  cases markerId? digits with
  | some found => simp
  | none => simp

@[simp]
theorem markedIds_plain (c : Char) (rest : List Segment) :
    markedIds (.plain c :: rest) = markedIds rest :=
  rfl

/-- Collecting goes on after a marker if the marker names an identity. -/
theorem markedIds_marker_eq_ok_iff {digits : List Char} {rest : List Segment} {ids : List Int} :
    markedIds (.marker digits :: rest) = .ok ids ↔
      ∃ id others, markerId? digits = some id ∧ markedIds rest = .ok others ∧
        ids = id :: others := by
  show (markerId digits >>= fun id => markedIds rest >>= fun others => pure (id :: others)) = _ ↔ _
  match named : markerId digits, collected : markedIds rest with
  | .error fault, _ =>
    refine ⟨nofun, fun ⟨id, _, names, _⟩ => ?_⟩
    exact nomatch named.symm.trans (markerId_eq_ok_iff.mpr names)
  | .ok id, .error fault => exact ⟨nofun, fun ⟨_, _, _, impossible, _⟩ => nomatch impossible⟩
  | .ok id, .ok others =>
    have names := markerId_eq_ok_iff.mp named
    constructor
    · intro same
      exact ⟨id, others, names, rfl, (Except.ok.inj same).symm⟩
    · rintro ⟨other, _, namesOther, same, rfl⟩
      cases names.symm.trans namesOther
      cases same
      rfl

/-- Identities are collected exactly if every marker names one. -/
theorem exists_markedIds_iff {segments : List Segment} :
    (∃ ids, markedIds segments = .ok ids) ↔
      ∀ digits, .marker digits ∈ segments → ∃ id, markerId? digits = some id := by
  induction segments with
  | nil => simp [markedIds]
  | cons segment rest inductionHypothesis =>
    cases segment with
    | plain c => simpa using inductionHypothesis
    | marker digits =>
      constructor
      · rintro ⟨ids, collected⟩ other member
        rcases markedIds_marker_eq_ok_iff.mp collected with ⟨id, others, names, collectedRest, rfl⟩
        rcases List.mem_cons.mp member with same | inRest
        · exact ⟨id, Segment.marker.inj same ▸ names⟩
        · exact inductionHypothesis.mp ⟨others, collectedRest⟩ other inRest
      · intro sound
        rcases sound digits List.mem_cons_self with ⟨id, names⟩
        obtain ⟨others, collected⟩ := inductionHypothesis.mpr fun other inRest =>
          sound other (List.mem_cons_of_mem _ inRest)
        exact ⟨id :: others, markedIds_marker_eq_ok_iff.mpr ⟨id, others, names, collected, rfl⟩⟩

/-- The identities collected are those that the markers name. -/
theorem mem_markedIds_iff {segments : List Segment} {ids : List Int}
    (collected : markedIds segments = .ok ids) {id : Int} :
    id ∈ ids ↔ ∃ digits, .marker digits ∈ segments ∧ markerId? digits = some id := by
  induction segments generalizing ids with
  | nil =>
    cases collected
    simp
  | cons segment rest inductionHypothesis =>
    cases segment with
    | plain c => simpa using inductionHypothesis collected
    | marker digits =>
      rcases markedIds_marker_eq_ok_iff.mp collected with ⟨first, others, names, collectedRest, rfl⟩
      rw [List.mem_cons, inductionHypothesis collectedRest]
      constructor
      · rintro (rfl | ⟨other, inRest, namesOther⟩)
        · exact ⟨digits, List.mem_cons_self, names⟩
        · exact ⟨other, List.mem_cons_of_mem _ inRest, namesOther⟩
      · rintro ⟨other, member, namesOther⟩
        rcases List.mem_cons.mp member with same | inRest
        · obtain rfl := Segment.marker.inj same
          exact .inl (Option.some.inj (namesOther.symm.trans names))
        · exact .inr ⟨other, inRest, namesOther⟩

theorem references_eq_ok_iff {text : List Char} {ids : IdSet} :
    references text = .ok ids ↔ ∃ listed, markedIds (segments text) = .ok listed ∧
      ids = IdSet.ofList listed := by
  rw [references]
  cases markedIds (segments text) with
  | error fault => simp [Except.map]
  | ok listed => simp [Except.map, eq_comm]

/-- The identities that a text refers to are those that its markers name. -/
theorem mem_references_iff {text : List Char} {ids : IdSet} (found : references text = .ok ids)
    {id : Int} :
    id ∈ ids ↔ ∃ digits, .marker digits ∈ segments text ∧ markerId? digits = some id := by
  rcases references_eq_ok_iff.mp found with ⟨listed, collected, rfl⟩
  rw [IdSet.mem_ofList]
  exact mem_markedIds_iff collected

/-- A text whose own identity is left out refers to the same as any text. -/
theorem dependencies_eq_ok_iff {text : List Char} {self : Option Int} {ids : IdSet} :
    dependencies text self = .ok ids ↔ references text = .ok ids ∧ ∀ id ∈ self, id ∉ ids := by
  rw [dependencies]
  match references text, self with
  | .error fault, _ => exact ⟨nofun, fun both => nomatch both.1⟩
  | .ok found, none =>
    show Except.ok found = .ok ids ↔ _
    simp
  | .ok found, some id =>
    show (if id ∈ found then throw (Fault.selfReference id) else pure found : Except Fault IdSet) =
      .ok ids ↔ _
    split
    · rename_i member
      refine ⟨nofun, fun ⟨same, sound⟩ => ?_⟩
      cases same
      exact absurd member (sound id rfl)
    · rename_i foreign
      refine ⟨fun same => ⟨same, fun _ isSelf member => ?_⟩, fun both => both.1⟩
      cases same
      exact foreign (Option.some.inj isSelf ▸ member)

/-! ## Substituted values -/

/-- A text with its markers replaced depends on the values of the identities it refers to alone. -/
theorem substitute_congr {text : List Char} {ids : IdSet} (found : references text = .ok ids)
    {valueOf otherOf : Int → Option Float} (agree : ∀ id ∈ ids, valueOf id = otherOf id) :
    substitute valueOf (segments text) = substitute otherOf (segments text) := by
  refine List.flatMap_congr fun segment member => ?_
  cases segment with
  | plain c => rfl
  | marker digits =>
    cases named : markerId? digits with
    | none => simp [named]
    | some id =>
      have same := agree id ((mem_references_iff found).mpr ⟨digits, member, named⟩)
      simp [named, same]

/-- Asking for values that are there answers with all of them. -/
theorem fetchAll_eq_ok {σ ε : Type} {fetch : Int → Action σ ε Float} {valueOf : Int → Float}
    {state : σ} {ids : List Int} (given : ∀ id ∈ ids, fetch id state = (.ok (valueOf id), state)) :
    fetchAll fetch ids state = (.ok (ids.map fun id => (id, valueOf id)), state) := by
  induction ids with
  | nil => rfl
  | cons id rest inductionHypothesis =>
    rw [fetchAll, Action.bind_of_ok (given id List.mem_cons_self),
      Action.bind_of_ok (inductionHypothesis fun other inRest =>
        given other (List.mem_cons_of_mem id inRest))]
    rfl

/-- Once the references of a text are known to be sound, resolving it is asking for their values and
writing them in. -/
theorem resolve_of_ok {σ ε : Type} {ofFault : Fault → ε} {text : List Char} {self : Option Int}
    {ids : IdSet} (found : dependencies text self = .ok ids) (fetch : Int → Action σ ε Float)
    (state : σ) :
    resolve ofFault text self fetch state =
      (fetchAll fetch ids.toList >>= fun values =>
        pure (Resolved.mk (substitute (Table.ofList values).find? (segments text)) ids)) state := by
  rw [resolve, found]
  rfl

theorem resolve_of_error {σ ε : Type} {ofFault : Fault → ε} {text : List Char} {self : Option Int}
    {fault : Fault} (found : dependencies text self = .error fault) (fetch : Int → Action σ ε Float)
    (state : σ) : resolve ofFault text self fetch state = (.error (ofFault fault), state) := by
  rw [resolve, found]
  rfl

end Formula

/-! ## Evaluation against given values -/

variable {evaluator : Formula.Evaluator} {text : List Char} {self : Option Int}
  {values : Table Float}

/-- If there is a value for everything that a formula refers to, its value is that of the formula
with these values in place of its markers. -/
theorem recompute_of_given {ids : IdSet} (found : Formula.dependencies text self = .ok ids)
    {valueOf : Int → Float} (given : ∀ id ∈ ids, values.find? id = some (valueOf id)) :
    recompute evaluator text self values =
      ((evaluator.evaluate (Formula.substitute values.find? (Formula.segments text))).mapError
        Failure.formula).map (⟨·, ids⟩) := by
  have fetched : Formula.fetchAll (fun id => .ofExcept (givenValue values id)) ids.toList () =
      (.ok (ids.toList.map fun id => (id, valueOf id)), ()) :=
    Formula.fetchAll_eq_ok fun id member => by
      rw [Action.ofExcept_apply, givenValue, given id member]
  have sameText : Formula.substitute
        (Table.ofList (ids.toList.map fun id => (id, valueOf id))).find? (Formula.segments text) =
      Formula.substitute values.find? (Formula.segments text) :=
    Formula.substitute_congr (Formula.dependencies_eq_ok_iff.mp found).1 fun id member => by
      rw [Table.find?_ofList_map, if_pos (IdSet.mem_def.mp member), given id member]
  simp only [recompute]
  rw [Formula.resolve_of_ok found, Action.bind_of_ok fetched, sameText]
  show ((evaluator.evaluate _).mapError Failure.formula >>= fun result =>
    pure (Evaluated.mk result ids)) = _
  cases evaluator.evaluate (Formula.substitute values.find? (Formula.segments text)) with
  | ok result => rfl
  | error fault => rfl

/-- What evaluation answers, it answers for the identities that the formula refers to. -/
theorem dependencies_of_recompute {evaluated : Evaluated}
    (recomputed : recompute evaluator text self values = .ok evaluated) :
    Formula.dependencies text self = .ok evaluated.dependencies := by
  simp only [recompute] at recomputed
  cases found : Formula.dependencies text self with
  | error fault =>
    rw [Formula.resolve_of_error found] at recomputed
    cases recomputed
  | ok ids =>
    rw [Formula.resolve_of_ok found] at recomputed
    match fetched : Formula.fetchAll (fun id => .ofExcept (givenValue values id)) ids.toList () with
    | (.error failure, _) =>
      rw [Action.bind_of_error fetched] at recomputed
      cases recomputed
    | (.ok given, _) =>
      rw [Action.bind_of_ok fetched] at recomputed
      change ((evaluator.evaluate _).mapError Failure.formula >>= fun result =>
        pure (Evaluated.mk result ids)) = _ at recomputed
      match evaluator.evaluate
          (Formula.substitute (Table.ofList given).find? (Formula.segments text)),
          recomputed with
      | .ok result, same =>
        cases same
        rfl
      | .error fault, impossible => cases impossible

end Formulary
