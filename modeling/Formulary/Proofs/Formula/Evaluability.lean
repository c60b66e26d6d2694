import Formulary.Proofs.Formula.Reading

/-!
# Formulas that can be evaluated

An accepted formula can be evaluated with all values for its markers, under every policy, if its
digits are ASCII digits and none of its numbers has two points. The condition is exact: a formula
that has been evaluated once, with whatever values and under whatever policy, meets it.
-/

namespace Formulary

namespace Formula

open Text

/-! ## Formulas whose numbers are well spelled -/

/-- Outside its markers a text has no decimal digits but the ASCII digits, and no number with two
points. -/
structure WellSpelled (text : List Char) : Prop where
  ascii : ∀ c, .plain c ∈ segments text → isDecimalDigit c = true → isAsciiDigit c = true
  pointsApart : PointsApart text

/-- A text can be evaluated under every policy and with all values for what it refers to. -/
def Evaluable (text : List Char) : Prop :=
  ∀ ids, references text = .ok ids →
    ∀ valueOf : Int → Option Float, (∀ id ∈ ids, ∃ value, valueOf id = some value) →
      ∀ policy, Parses policy (substitute valueOf (segments text))

variable {policy : SplitPolicy} {text : List Char} {ids : IdSet} {valueOf : Int → Option Float}

theorem given_of_references (found : references text = .ok ids)
    (given : ∀ id ∈ ids, ∃ value, valueOf id = some value) : Given valueOf text := by
  intro digits member
  rcases references_eq_ok_iff.mp found with ⟨listed, collected, -⟩
  rcases exists_markedIds_iff.mp ⟨listed, collected⟩ digits member with ⟨id, names⟩
  rcases given id ((mem_references_iff found).mpr ⟨digits, member, names⟩) with ⟨value, valued⟩
  exact ⟨value, by rw [names, Option.bind_some, valued]⟩

/-- The digits of markers that name identities are ASCII digits. -/
theorem asciiDigits_of_references (found : references text = .ok ids)
    (ascii : ∀ c, .plain c ∈ segments text → isDecimalDigit c = true → isAsciiDigit c = true) :
    AsciiDigits text := by
  intro c member decimal
  rw [← flatMap_text_segments text] at member
  rcases List.mem_flatMap.mp member with ⟨segment, isSegment, inSegment⟩
  cases segment with
  | plain other =>
    obtain rfl := List.mem_singleton.mp inSegment
    exact ascii c isSegment decimal
  | marker digits =>
    rcases references_eq_ok_iff.mp found with ⟨listed, collected, -⟩
    rcases exists_markedIds_iff.mp ⟨listed, collected⟩ digits isSegment with ⟨id, names⟩
    have digitsAscii : digits.all isAsciiDigit = true := by
      by_contra notAll
      simp [markerId?, notAll] at names
    simp only [Segment.text, List.cons_append, List.mem_cons, List.mem_append, List.not_mem_nil,
      or_false] at inSegment
    rcases inSegment with rfl | inDigits | rfl
    · exact absurd decimal (by decide)
    · exact List.all_eq_true.mp digitsAscii c inDigits
    · exact absurd decimal (by decide)

/-- Decimal digits of one byte are ASCII digits. -/
theorem isAsciiDigit_of_utf8Size {c : Char} (small : c.utf8Size = 1)
    (decimal : isDecimalDigit c = true) : isAsciiDigit c = true := by
  have atMost : c.toNat ≤ 127 := Char.utf8Size_eq_one_iff.mp small
  rcases List.any_eq_true.mp decimal with ⟨start, isStart, within⟩
  have others : ∀ start ∈ digitZeros, start ≤ 127 → start = 48 := by decide
  simp only [Bool.and_eq_true, decide_eq_true_eq] at within
  have start_eq := others start isStart (by omega)
  have atLeast : '0' ≤ c := by
    show 48 ≤ c.toNat
    omega
  have below : c ≤ '9' := by
    show c.toNat ≤ 57
    omega
  simp [isAsciiDigit, atLeast, below]

theorem evaluable_of_isRow (isRow : ∀ ids, references text = .ok ids → IsRow IsNumeral text) :
    Evaluable text :=
  fun ids found _ given _ => (isRow ids found).parses (given_of_references found given)

/-- An accepted text whose numbers are well spelled can be evaluated. -/
theorem Accepted.evaluable (accepted : Accepted text) (wellSpelled : WellSpelled text) :
    Evaluable text := by
  apply evaluable_of_isRow
  intro ids found
  have isRow := accepted.isRow (asciiDigits_of_references found wellSpelled.ascii)
  exact isRow.of_within fun run isRun isWithin =>
    isRun.isNumeral (wellSpelled.pointsApart.of_infix isWithin)

/-! ## Texts that have a value -/

section

variable {left right first : List Char} {rest : Operands (List Char)} {separator : Char}

theorem pointsApart_of_not_mem (noPoint : '.' ∉ text) : PointsApart text := by
  rintro before between after rfl
  exact absurd (by simp) noPoint

/-- Points on either side of a character that is no digit stand apart. -/
theorem PointsApart.append (leftApart : PointsApart left) (rightApart : PointsApart right)
    (notDigit : isAsciiDigit separator = false) (notPoint : separator ≠ '.') :
    PointsApart (left ++ separator :: right) := by
  intro before between after whole
  rcases List.append_eq_append_iff.mp whole with ⟨middle, rfl, later⟩ | ⟨middle, rfl, later⟩
  · cases middle with
    | nil => exact absurd (List.cons.inj later).1 notPoint
    | cons c middle => exact rightApart middle between after (List.cons.inj later).2
  cases middle with
  | nil => exact absurd (List.cons.inj later).1.symm notPoint
  | cons c middle =>
    obtain ⟨rfl, behind⟩ := List.cons.inj later
    rcases List.append_eq_append_iff.mp behind with ⟨inner, rfl, last⟩ | ⟨inner, rfl, last⟩
    · cases inner with
      | nil => exact absurd (List.cons.inj last).1.symm notPoint
      | cons point inner =>
        obtain ⟨rfl, -⟩ := List.cons.inj last
        exact leftApart before between inner rfl
    · cases inner with
      | nil => exact absurd (List.cons.inj last).1 notPoint
      | cons other inner =>
        obtain ⟨rfl, -⟩ := List.cons.inj last
        exact ⟨separator, by simp, notDigit⟩

theorem PointsApart.cons (apart : PointsApart right) (notDigit : isAsciiDigit separator = false)
    (notPoint : separator ≠ '.') : PointsApart (separator :: right) := by
  have nothing : PointsApart [] := pointsApart_of_not_mem List.not_mem_nil
  exact nothing.append apart notDigit notPoint

theorem not_mem_map_digitChar (digits : List (Fin 10)) : '.' ∉ digits.map digitChar := by
  intro member
  exact absurd (isAsciiDigit_of_mem_map member) (by decide)

/-- A number has no more than one point. -/
theorem IsNumeral.pointsApart (isNumeral : IsNumeral text) : PointsApart text := by
  rcases isNumeral with ⟨numeral, rfl⟩
  have atMost : numeral.text.count '.' ≤ 1 := by
    have none : ∀ digits : List (Fin 10), (digits.map digitChar).count '.' = 0 := fun digits =>
      List.count_eq_zero.mpr (not_mem_map_digitChar digits)
    simp only [Numeral.text]
    split
    · rw [none]
      exact Nat.zero_le 1
    · rw [List.count_append, List.count_cons_self, none, none]
  intro before between after whole
  rw [whole] at atMost
  simp at atMost
  omega

theorem IsPowers.pointsApart (isPowers : IsPowers IsNumeral text) : PointsApart text := by
  induction isPowers with
  | run isNumeral => exact isNumeral.pointsApart
  | power isNumeral _ inductionHypothesis =>
    exact isNumeral.pointsApart.append inductionHypothesis (by decide) (by decide)

theorem pointsApart_operandsText (apart : ∀ item ∈ rest, PointsApart item.2)
    (firstApart : PointsApart first) : PointsApart (first ++ operandsText rest) := by
  induction rest generalizing first with
  | nil => rwa [operandsText, List.append_nil]
  | cons item rest inductionHypothesis =>
    have later := inductionHypothesis
      (fun other member => apart other (List.mem_cons_of_mem _ member))
      (apart item List.mem_cons_self)
    exact firstApart.append later (by cases item.1 <;> decide) (by cases item.1 <;> decide)

theorem pointsApart_rowText (sign : Option Bool) (firstApart : PointsApart first)
    (apart : ∀ item ∈ rest, PointsApart item.2) : PointsApart (rowText sign first rest) := by
  have row := pointsApart_operandsText apart firstApart
  rw [rowText, List.append_assoc]
  rcases sign with _ | _ | _
  · exact row
  · exact row.cons (by decide) (by decide)
  · exact row.cons (by decide) (by decide)

theorem IsTerm.pointsApart (isTerm : IsTerm IsNumeral text) : PointsApart text := by
  have nothing : PointsApart [] := pointsApart_of_not_mem List.not_mem_nil
  induction isTerm with
  | powers isPowers => exact isPowers.pointsApart
  | logarithm argument base =>
    have argumentApart := IsNumeral.pointsApart ⟨argument, rfl⟩
    have baseApart := IsNumeral.pointsApart ⟨base, rfl⟩
    have closed : PointsApart (base.text ++ [')']) :=
      baseApart.append nothing (by decide) (by decide)
    have arguments : PointsApart (argument.text ++ ';' :: base.text ++ [')']) := by
      rw [List.append_assoc]
      exact argumentApart.append closed (by decide) (by decide)
    have opened : PointsApart ('(' :: (argument.text ++ ';' :: base.text ++ [')'])) :=
      arguments.cons (by decide) (by decide)
    exact ((opened.cons (by decide) (by decide)).cons (by decide) (by decide)).cons
      (by decide) (by decide)
  | @marker digits _ ascii =>
    apply pointsApart_of_not_mem
    intro member
    simp only [List.mem_cons, List.mem_append, List.not_mem_nil, or_false] at member
    rcases member with impossible | inDigits | impossible
    · exact absurd impossible (by decide)
    · exact absurd (ascii '.' inDigits) (by decide)
    · exact absurd impossible (by decide)
  | @group sign _ _ _ _ firstHypothesis restHypothesis =>
    have row := pointsApart_rowText sign firstHypothesis restHypothesis
    exact (row.append nothing (by decide) (by decide)).cons (by decide) (by decide)

theorem IsRow.pointsApart (isRow : IsRow IsNumeral text) : PointsApart text := by
  cases isRow with
  | row isFirst isRest =>
    exact pointsApart_rowText _ isFirst.pointsApart fun item member =>
      (isRest item member).pointsApart

end

/-- The numbers of an accepted text that parses with some values under some policy are well
spelled. -/
theorem Accepted.wellSpelled_of_parses (accepted : Accepted text)
    (found : references text = .ok ids) (given : ∀ id ∈ ids, ∃ value, valueOf id = some value)
    (parses : Parses policy (substitute valueOf (segments text))) : WellSpelled text := by
  have ascii : ∀ c, .plain c ∈ segments text → isDecimalDigit c = true → isAsciiDigit c = true := by
    intro c member decimal
    have stays : c ∈ substitute valueOf (segments text) :=
      List.mem_flatMap.mpr ⟨.plain c, member, List.mem_singleton_self c⟩
    exact isAsciiDigit_of_utf8Size (parses.utf8Size_eq c stays) decimal
  have isRow := accepted.isRow (asciiDigits_of_references found ascii)
  exact ⟨ascii, (isRow.of_parses (given_of_references found given) parses).pointsApart⟩

/-! ## Faults of references -/

/-- Collecting identities fails by the first marker that names none. -/
theorem markedIds_eq_error {segments : List Segment} {fault : Fault}
    (failed : markedIds segments = .error fault) :
    ∃ before digits after, segments = before ++ .marker digits :: after ∧
      (∀ other, .marker other ∈ before → SpellsId other) ∧ ¬SpellsId digits ∧
        fault = .markerRange digits := by
  induction segments with
  | nil => cases failed
  | cons segment rest inductionHypothesis =>
    cases segment with
    | plain c =>
      rcases inductionHypothesis failed with ⟨before, digits, after, rfl, spelled, bad, fault_eq⟩
      exact ⟨.plain c :: before, digits, after, rfl, by simpa using spelled, bad, fault_eq⟩
    | marker digits =>
      change (markerId digits >>= fun id => markedIds rest >>= fun others => pure (id :: others)) =
        _ at failed
      cases named : markerId digits with
      | error found =>
        rw [named] at failed
        cases failed
        rw [markerId] at named
        split at named
        · cases named
        · rename_i unnamed
          cases named
          exact ⟨[], digits, rest, rfl, by simp, markerId?_eq_none_iff.mp unnamed, rfl⟩
      | ok id =>
        cases collected : markedIds rest with
        | error found =>
          rw [named, collected] at failed
          cases failed
          rcases inductionHypothesis collected with
            ⟨before, other, after, rfl, spelled, bad, fault_eq⟩
          have first := (markerId?_eq_some_iff.mp (markerId_eq_ok_iff.mp named)).1
          refine ⟨.marker digits :: before, other, after, rfl, fun next member => ?_, bad, fault_eq⟩
          rcases List.mem_cons.mp member with same | inBefore
          · exact Segment.marker.inj same ▸ first
          · exact spelled next inBefore
        | ok others =>
          rw [named, collected] at failed
          cases failed

/-- References fail by a marker that names no identity, or because the text refers to itself. -/
theorem dependencies_eq_error {self : Option Int} {fault : Fault}
    (failed : dependencies text self = .error fault) :
    (∃ digits, fault = .markerRange digits) ∨ ∃ id, fault = .selfReference id := by
  rw [dependencies, references] at failed
  cases collected : markedIds (segments text) with
  | error found =>
    rw [collected] at failed
    cases failed
    rcases markedIds_eq_error collected with ⟨-, digits, -, -, -, -, fault_eq⟩
    exact .inl ⟨digits, fault_eq⟩
  | ok ids =>
    rw [collected] at failed
    cases self with
    | none => cases failed
    | some id =>
      change (if id ∈ IdSet.ofList ids then throw (Fault.selfReference id)
        else pure (IdSet.ofList ids) : Except Fault IdSet) = _ at failed
      split at failed
      · cases failed
        exact .inr ⟨id, rfl⟩
      · cases failed

end Formula

/-! ## Evaluation against given values -/

variable {evaluator : Formula.Evaluator} {text : List Char} {self : Option Int}
  {values : Table Float}

/-- Asking for given values answers them all, or fails for one that is missing. -/
theorem fetchAll_givenValue_cases (values : Table Float) (ids : List Int) :
    (∃ given,
        Formula.fetchAll (fun id => .ofExcept (givenValue values id)) ids () = (.ok given, ()) ∧
          ∀ id ∈ ids, ∃ value, values.find? id = some value) ∨
      ∃ id, Formula.fetchAll (fun id => .ofExcept (givenValue values id)) ids () =
        (.error (.notFound id), ()) := by
  induction ids with
  | nil => exact .inl ⟨[], rfl, by simp⟩
  | cons id rest inductionHypothesis =>
    cases found : values.find? id with
    | none =>
      have failed : (Action.ofExcept (givenValue values id) : Action Unit Failure Float) () =
          (.error (.notFound id), ()) := by
        rw [Action.ofExcept_apply, givenValue, found]
      exact .inr ⟨id, by rw [Formula.fetchAll, Action.bind_of_error failed]⟩
    | some value =>
      have answered : (Action.ofExcept (givenValue values id) : Action Unit Failure Float) () =
          (.ok value, ()) := by
        rw [Action.ofExcept_apply, givenValue, found]
      rcases inductionHypothesis with ⟨given, fetched, all⟩ | ⟨missing, failed⟩
      · refine .inl ⟨(id, value) :: given, ?_, List.forall_mem_cons.mpr ⟨⟨value, found⟩, all⟩⟩
        rw [Formula.fetchAll, Action.bind_of_ok answered, Action.bind_of_ok fetched]
        rfl
      · refine .inr ⟨missing, ?_⟩
        rw [Formula.fetchAll, Action.bind_of_ok answered, Action.bind_of_error failed]

/-- The failure does not call a text malformed. -/
def NotMalformed (failure : Failure) : Prop :=
  ∀ part, failure ≠ .formula (.malformed part)

theorem notMalformed_of_dependencies {fault : Formula.Fault}
    (failed : Formula.dependencies text self = .error fault) : NotMalformed (.formula fault) := by
  rcases Formula.dependencies_eq_error failed with ⟨digits, rfl⟩ | ⟨id, rfl⟩
  · exact nofun
  · exact nofun

/-- Recomputing a formula fails before values are written in, or is evaluating it with the values
that are given for it. -/
theorem recompute_cases (evaluator : Formula.Evaluator) (text : List Char) (self : Option Int)
    (values : Table Float) :
    (∃ failure, recompute evaluator text self values = .error failure ∧ NotMalformed failure) ∨
      ∃ ids, Formula.references text = .ok ids ∧
        (∀ id ∈ ids, ∃ value, values.find? id = some value) ∧
          recompute evaluator text self values =
            ((evaluator.evaluate (Formula.substitute values.find? (Formula.segments text))).mapError
              Failure.formula).map (⟨·, ids⟩) := by
  cases found : Formula.dependencies text self with
  | error fault =>
    refine .inl ⟨.formula fault, ?_, notMalformed_of_dependencies found⟩
    simp only [recompute]
    rw [Formula.resolve_of_error found]
    rfl
  | ok ids =>
    rcases fetchAll_givenValue_cases values ids.toList with ⟨-, -, given⟩ | ⟨id, fetched⟩
    · have valued : ∀ id ∈ ids, values.find? id = some ((values.find? id).getD 0) := by
        intro id member
        rcases given id (IdSet.mem_def.mp member) with ⟨value, filed⟩
        rw [filed, Option.getD_some]
      exact .inr ⟨ids, (Formula.dependencies_eq_ok_iff.mp found).1,
        fun id member => ⟨_, valued id member⟩, recompute_of_given found valued⟩
    · refine .inl ⟨.notFound id, ?_, by simp [NotMalformed]⟩
      simp only [recompute]
      rw [Formula.resolve_of_ok found, Action.bind_of_error fetched]
      rfl

/-- Recomputing a formula that can be evaluated never calls a part of it malformed. -/
theorem Formula.Evaluable.notMalformed (evaluable : Formula.Evaluable text) {failure : Failure}
    (failed : recompute evaluator text self values = .error failure) : NotMalformed failure := by
  rcases recompute_cases evaluator text self values with
    ⟨other, otherFailed, notMalformed⟩ | ⟨ids, found, given, recompute_eq⟩
  · cases failed.symm.trans otherFailed
    exact notMalformed
  · have parses := evaluable ids found values.find? given evaluator.policy
    rw [recompute_eq] at failed
    cases evaluated :
        evaluator.evaluate (Formula.substitute values.find? (Formula.segments text)) with
    | ok value =>
      rw [evaluated] at failed
      cases failed
    | error fault =>
      rw [evaluated] at failed
      cases failed
      rcases parses.fault_cases evaluated with ⟨quotient, rfl⟩ | rfl
      · exact nofun
      · exact nofun

/-- The numbers of an accepted formula that has been evaluated once are well spelled. -/
theorem Formula.Accepted.wellSpelled_of_recompute (accepted : Formula.Accepted text)
    {evaluated : Evaluated} (recomputed : recompute evaluator text self values = .ok evaluated) :
    Formula.WellSpelled text := by
  rcases recompute_cases evaluator text self values with
    ⟨_, failed, -⟩ | ⟨ids, found, given, recompute_eq⟩
  · cases recomputed.symm.trans failed
  · rw [recompute_eq] at recomputed
    cases valued : evaluator.evaluate (Formula.substitute values.find? (Formula.segments text)) with
    | error fault =>
      rw [valued] at recomputed
      cases recomputed
    | ok value =>
      have parses := Formula.parses_of_evaluateWithin valued
      exact accepted.wellSpelled_of_parses found given parses

end Formulary
