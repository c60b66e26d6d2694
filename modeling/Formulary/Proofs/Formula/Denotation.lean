import Formulary.Proofs.Formula.Filling

/-!
# Evaluation has the meaning of the tree

A formula that is the text of a tree evaluates to the value of the tree, under either policy and
with any values for its markers, or to a division by zero where the tree has no value.
-/

namespace Formulary

namespace Formula

open Text

/-- The operands of a row with their texts and their values. -/
def restOperands (policy : SplitPolicy) (values : Int → Float) :
    List (Operator × Term) → Operands (List Char × Option Float)
  | [] => []
  | (operator, term) :: rest =>
    (operator, (term.filled values, term.meaning policy values none)) ::
      restOperands policy values rest

theorem operandTexts_restOperands (policy : SplitPolicy) (values : Int → Float)
    (rest : List (Operator × Term)) :
    operandTexts (restOperands policy values rest) = restFilled values rest := by
  induction rest with
  | nil => rfl
  | cons item rest inductionHypothesis =>
    rw [restOperands, restFilled, ← inductionHypothesis]
    rfl

theorem operandValues_restOperands (policy : SplitPolicy) (values : Int → Float)
    (rest : List (Operator × Term)) :
    operandValues (restOperands policy values rest) = restMeaning policy values rest := by
  induction rest with
  | nil => rfl
  | cons item rest inductionHypothesis =>
    rw [restOperands, restMeaning, ← inductionHypothesis]
    rfl

/-- A row of terms settles on its value if its terms do. -/
theorem settles_terms {policy : SplitPolicy} {values : Int → Float} {sign : Option Bool}
    {first : Term}
    {rest : List (Operator × Term)} (firstText : OperandText (first.filled values))
    (firstPart : Settles policy (signText sign ++ first.filled values)
      (first.meaning policy values sign))
    (parts : ∀ item ∈ restOperands policy values rest,
      OperandText item.2.1 ∧ Settles policy item.2.1 item.2.2) :
    Settles policy (rowText sign (first.filled values) (restFilled values rest))
      (rowMeaning policy (first.meaning policy values sign) (restMeaning policy values rest)) := by
  rw [← operandTexts_restOperands policy, ← operandValues_restOperands policy]
  exact settles_row firstText firstPart parts

mutual

/-- A term settles on its value, with any sign before it. -/
theorem Term.settles (policy : SplitPolicy) (values : Int → Float) (term : Term) :
    OperandText (term.filled values) ∧
      ∀ sign, Settles policy (signText sign ++ term.filled values)
        (term.meaning policy values sign) := by
  cases term with
  | number numeral =>
    rw [Term.filled]
    exact ⟨numeral.literal.operandText, numeral.literal.settles⟩
  | power base exponent =>
    rw [Term.filled]
    exact ⟨operandText_power base.literal.operandText.enclosed exponent.literal.operandText,
      settles_power base.literal exponent.literal⟩
  | logarithm argument base =>
    have standing : Standing policy (logarithmText argument.text base.text) _ :=
      standing_logarithm argument.literal base.literal
    rw [Term.filled]
    exact ⟨standing.operandText, standing.settles⟩
  | marker first others =>
    have standing : Standing policy (valueText (values (idOfDigits first others))) _ :=
      standing_valueText _
    rw [Term.filled]
    exact ⟨standing.operandText, standing.settles⟩
  | group sign first rest =>
    rcases Term.settles policy values first with ⟨firstText, firstParts⟩
    have parts := restSettles policy values rest
    have texts : ∀ item ∈ restFilled values rest, OperandText item.2 := by
      intro item member
      rw [← operandTexts_restOperands policy] at member
      rcases List.mem_map.mp member with ⟨operand, inRest, rfl⟩
      exact (parts operand inRest).1
    have standing := standing_group (enclosed_rowText firstText texts)
      (settles_terms firstText (firstParts sign) parts)
    rw [Term.filled]
    exact ⟨standing.operandText, standing.settles⟩

/-- Terms with operators before them settle on their values. -/
theorem restSettles (policy : SplitPolicy) (values : Int → Float) (rest : List (Operator × Term)) :
    ∀ item ∈ restOperands policy values rest,
      OperandText item.2.1 ∧ Settles policy item.2.1 item.2.2 := by
  match rest with
  | [] => exact fun _ member => absurd member List.not_mem_nil
  | (operator, term) :: rest =>
    intro item member
    rw [restOperands] at member
    rcases List.mem_cons.mp member with rfl | member
    · rcases Term.settles policy values term with ⟨text, parts⟩
      exact ⟨text, parts none⟩
    · exact restSettles policy values rest item member

end

/-- The text of a chain settles on the value of the chain. -/
theorem Chain.settles (policy : SplitPolicy) (values : Int → Float) (chain : Chain) :
    Settles policy (chain.filled values) (chain.meaning policy values) := by
  rcases chain.first.settles policy values with ⟨firstText, firstParts⟩
  exact settles_terms firstText (firstParts chain.sign) (restSettles policy values chain.rest)

/-- A chain whose markers name identities with these values refers to just these identities. -/
theorem Chain.dependencies_eq {chain : Chain} {valueOf : Int → Option Float} {values : Int → Float}
    (given : ∀ id ∈ chain.ids, id ≤ largestId ∧ valueOf id = some (values id)) :
    dependencies chain.text none = .ok (IdSet.ofList chain.ids) := by
  have named := (chain.fills given).named [] [] (by rw [segments]; rfl)
  rw [List.append_nil, List.append_nil] at named
  exact dependencies_eq_ok_iff.mpr
    ⟨references_eq_ok_iff.mpr ⟨chain.ids, named, rfl⟩,
      fun _ isSelf => (Option.some_ne_none _ isSelf.symm).elim⟩

theorem Chain.substitute_eq {chain : Chain} {valueOf : Int → Option Float} {values : Int → Float}
    (given : ∀ id ∈ chain.ids, id ≤ largestId ∧ valueOf id = some (values id)) :
    substitute valueOf (segments chain.text) = chain.filled values := by
  have filled := (chain.fills given).substituted []
  rw [List.append_nil, segments] at filled
  rw [filled]
  exact List.append_nil _

end Formula

open Formula

variable {policy : SplitPolicy} {nesting : Nat} {chain : Chain} {values : Table Float}
  {assigned : Int → Float}

/-- The text of a chain with its values comes to the value of the chain, or to a division by
zero. -/
theorem agrees_evaluate (policy : SplitPolicy)
    (given : ∀ id ∈ chain.ids, id ≤ largestId ∧ values.find? id = some (assigned id))
    (enough : Text.byteLength (substitute values.find? (segments chain.text)) ≤ nesting) :
    Agrees (Evaluator.evaluate ⟨policy, nesting⟩ (substitute values.find? (segments chain.text)))
      (chain.meaning policy assigned) := by
  rw [Chain.substitute_eq given] at enough ⊢
  exact chain.settles policy assigned nesting (nesting + 1) (Nat.lt_succ_of_le enough)

/-- Recomputing the text of a chain is evaluating it with its values. -/
theorem recompute_chain (evaluator : Evaluator)
    (given : ∀ id ∈ chain.ids, id ≤ largestId ∧ values.find? id = some (assigned id)) :
    recompute evaluator chain.text none values =
      ((evaluator.evaluate (substitute values.find? (segments chain.text))).mapError
        Failure.formula).map (⟨·, IdSet.ofList chain.ids⟩) := by
  have allGiven : ∀ id ∈ IdSet.ofList chain.ids, values.find? id = some (assigned id) :=
    fun id member => (given id (IdSet.mem_ofList.mp member)).2
  exact recompute_of_given (Chain.dependencies_eq given) allGiven

/-- Recomputing the text of a chain answers the value of the chain, and reports a division by zero
exactly where the chain has none. -/
theorem recompute_iff (policy : SplitPolicy)
    (given : ∀ id ∈ chain.ids, id ≤ largestId ∧ values.find? id = some (assigned id))
    (enough : Text.byteLength (substitute values.find? (segments chain.text)) ≤ nesting) :
    (∀ value, recompute ⟨policy, nesting⟩ chain.text none values =
        .ok ⟨value, IdSet.ofList chain.ids⟩ ↔ chain.meaning policy assigned = some value) ∧
      ((∃ quotient, recompute ⟨policy, nesting⟩ chain.text none values =
        .error (.formula (.divisionByZero quotient))) ↔ chain.meaning policy assigned = none) := by
  have agrees := agrees_evaluate policy given enough
  rw [recompute_chain ⟨policy, nesting⟩ given]
  cases meaning : chain.meaning policy assigned with
  | some result =>
    rw [meaning, Agrees] at agrees
    rw [agrees]
    constructor
    · intro value
      simp [Except.map]
    · simp [Except.map]
  | none =>
    rw [meaning, Agrees] at agrees
    rcases agrees with ⟨quotient, failed⟩
    rw [failed]
    simp [Except.map]

/-- Under the legacy policy the text of a tree has the legacy value of the tree: each row is cut at
all `+`, then at all `-`, then at all `*`, then at all `/`, and put together from the right. A
division by zero is reported exactly where the tree has no value. -/
theorem recompute_legacy
    (given : ∀ id ∈ chain.ids, id ≤ largestId ∧ values.find? id = some (assigned id))
    (enough : Text.byteLength (substitute values.find? (segments chain.text)) ≤ nesting) :
    (∀ value, recompute ⟨.legacy, nesting⟩ chain.text none values =
        .ok ⟨value, IdSet.ofList chain.ids⟩ ↔ chain.meaning .legacy assigned = some value) ∧
      ((∃ quotient, recompute ⟨.legacy, nesting⟩ chain.text none values =
        .error (.formula (.divisionByZero quotient))) ↔ chain.meaning .legacy assigned = none) :=
  recompute_iff .legacy given enough

/-- The text `-{1}-4-{2}`. -/
def differences : Chain :=
  ⟨some true, .marker 1 [], [(.subtract, .number ⟨4, [], []⟩), (.subtract, .marker 2 [])]⟩

def twoValues : Table Float :=
  Table.ofList [(1, -2.5), (2, -3)]

theorem twoValues_given : ∀ id ∈ differences.ids, id ≤ largestId ∧
    twoValues.find? id = some (if id = 1 then -2.5 else -3) := by
  decide +kernel

theorem substitute_differences :
    substitute twoValues.find? (segments differences.text) = "-(-2.5)-4-(-3)".toList := by
  decide +kernel

theorem byteLength_differences :
    Text.byteLength (substitute twoValues.find? (segments differences.text)) ≤ 14 := by
  rw [substitute_differences]
  decide

theorem recompute_legacy_differences :
    (∀ id ∈ differences.ids, id ≤ largestId ∧
        twoValues.find? id = some (if id = 1 then -2.5 else -3)) ∧
      Text.byteLength (substitute twoValues.find? (segments differences.text)) ≤ 14 ∧
        recompute ⟨.legacy, 14⟩ differences.text none twoValues =
          .ok ⟨-4.5, IdSet.ofList [1, 2]⟩ := by
  have value : differences.meaning .legacy (fun id => if id = 1 then -2.5 else -3) =
      some (-4.5) := by
    decide +kernel
  constructor
  · exact twoValues_given
  constructor
  · exact byteLength_differences
  · exact ((recompute_legacy twoValues_given byteLength_differences).1 _).mpr value

/-- Under the left-associative policy the text of a tree has the conventional value of the tree:
products and quotients are put together from the left, and then sums and differences of them. A
division by zero is reported exactly where the tree has no value. -/
theorem recompute_leftAssociative
    (given : ∀ id ∈ chain.ids, id ≤ largestId ∧ values.find? id = some (assigned id))
    (enough : Text.byteLength (substitute values.find? (segments chain.text)) ≤ nesting) :
    (∀ value, recompute ⟨.leftAssociative, nesting⟩ chain.text none values =
        .ok ⟨value, IdSet.ofList chain.ids⟩ ↔
          chain.meaning .leftAssociative assigned = some value) ∧
      ((∃ quotient, recompute ⟨.leftAssociative, nesting⟩ chain.text none values =
        .error (.formula (.divisionByZero quotient))) ↔
          chain.meaning .leftAssociative assigned = none) :=
  recompute_iff .leftAssociative given enough

theorem recompute_leftAssociative_differences :
    (∀ id ∈ differences.ids, id ≤ largestId ∧
        twoValues.find? id = some (if id = 1 then -2.5 else -3)) ∧
      Text.byteLength (substitute twoValues.find? (segments differences.text)) ≤ 14 ∧
        recompute ⟨.leftAssociative, 14⟩ differences.text none twoValues =
          .ok ⟨1.5, IdSet.ofList [1, 2]⟩ := by
  have value : differences.meaning .leftAssociative (fun id => if id = 1 then -2.5 else -3) =
      some 1.5 := by
    decide +kernel
  constructor
  · exact twoValues_given
  constructor
  · exact byteLength_differences
  · exact ((recompute_leftAssociative twoValues_given byteLength_differences).1 _).mpr value

end Formulary
