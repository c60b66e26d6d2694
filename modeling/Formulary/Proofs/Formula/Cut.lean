import Formulary.Formula.Meaning

/-!
# Where rows are cut

A policy cuts a row of operands at one operator: the legacy policy at the first of the least rank,
the other at the last. The value of the row is that of this operator between the values of the two
parts.
-/

namespace Formulary.Formula

variable {α : Type}

/-! ## Cuts -/

/-- How late an operator is applied under a policy: at the least rank the row is cut first. -/
def Operator.rank : SplitPolicy → Operator → Nat
  | .legacy, .add => 0
  | .legacy, .subtract => 1
  | .legacy, .multiply => 2
  | .legacy, .divide => 3
  | .leftAssociative, .add | .leftAssociative, .subtract => 0
  | .leftAssociative, .multiply | .leftAssociative, .divide => 1

/-- Of an operator and a later one, the row is cut at the first rather than at the second. -/
def Operator.CutsBefore (policy : SplitPolicy) (operator later : Operator) : Prop :=
  match policy with
  | .legacy => operator.rank policy ≤ later.rank policy
  | .leftAssociative => operator.rank policy < later.rank policy

theorem Operator.CutsBefore.trans {policy : SplitPolicy} {first second third : Operator}
    (left : first.CutsBefore policy second) (right : second.CutsBefore policy third) :
    first.CutsBefore policy third := by
  cases policy <;> simp only [CutsBefore] at * <;> omega

theorem Operator.CutsBefore.of_not {policy : SplitPolicy} {first second third : Operator}
    (left : first.CutsBefore policy third) (right : ¬second.CutsBefore policy third) :
    first.CutsBefore policy second := by
  cases policy <;> simp only [CutsBefore] at * <;> omega

/-- Under this policy the row is cut at an operator with these operands before and after it. -/
def IsCut (policy : SplitPolicy) (operator : Operator) (before after : Operands α) : Prop :=
  (∀ item ∈ before, ¬item.1.CutsBefore policy operator) ∧
    ∀ item ∈ after, operator.CutsBefore policy item.1

/-- Every row that has an operator is cut somewhere. -/
theorem exists_isCut (policy : SplitPolicy) {rest : Operands α} (nonempty : rest ≠ []) :
    ∃ before operator next after,
      rest = before ++ (operator, next) :: after ∧ IsCut policy operator before after := by
  induction rest with
  | nil => exact absurd rfl nonempty
  | cons item rest inductionHypothesis =>
    rcases item with ⟨operator, next⟩
    by_cases isLast : rest = []
    · exact ⟨[], operator, next, [], by rw [isLast]; rfl, by simp [IsCut]⟩
    rcases inductionHypothesis isLast with ⟨before, later, other, after, rfl, notBefore, isBefore⟩
    by_cases earlier : operator.CutsBefore policy later
    · refine ⟨[], operator, next, _, rfl, by simp, fun item member => ?_⟩
      rcases List.mem_append.mp member with member | member
      · exact earlier.of_not (notBefore item member)
      · rcases List.mem_cons.mp member with rfl | member
        · exact earlier
        · exact earlier.trans (isBefore item member)
    · refine ⟨(operator, next) :: before, later, other, after, rfl, fun item member => ?_, isBefore⟩
      rcases List.mem_cons.mp member with rfl | member
      · exact earlier
      · exact notBefore item member

theorem IsCut.map {β : Type} {policy : SplitPolicy} {operator : Operator}
    {before after : Operands α} (f : α → β) (isCut : IsCut policy operator before after) :
    IsCut policy operator (before.map fun item => (item.1, f item.2))
      (after.map fun item => (item.1, f item.2)) := by
  rcases isCut with ⟨notBefore, isBefore⟩
  constructor
  · intro item member
    rcases List.mem_map.mp member with ⟨original, inBefore, rfl⟩
    exact notBefore original inBefore
  · intro item member
    rcases List.mem_map.mp member with ⟨original, inAfter, rfl⟩
    exact isBefore original inAfter

/-- A row is cut at an operator of the least rank. -/
theorem IsCut.rank_le {policy : SplitPolicy} {operator : Operator} {next : α}
    {before after : Operands α} (isCut : IsCut policy operator before after) :
    ∀ item ∈ before ++ (operator, next) :: after, operator.rank policy ≤ item.1.rank policy := by
  rcases isCut with ⟨notBefore, isBefore⟩
  intro item member
  rcases List.mem_append.mp member with member | member
  · have := notBefore item member
    cases policy <;> simp only [Operator.CutsBefore] at this <;> omega
  · rcases List.mem_cons.mp member with rfl | member
    · exact Nat.le_refl _
    · have := isBefore item member
      cases policy <;> simp only [Operator.CutsBefore] at this <;> omega

/-! ## Values of rows -/

section

variable {here : Operator → Bool} {operator : Operator} {first next : α}
  {before after rest : Operands α}

theorem cutRow_of_forall_not (none : ∀ item ∈ rest, here item.1 = false) (first : α) :
    cutRow here first rest = ((first, rest), []) := by
  induction rest generalizing first with
  | nil => rfl
  | cons item rest inductionHypothesis =>
    have notHere := none item List.mem_cons_self
    have later := inductionHypothesis (fun other member =>
      none other (List.mem_cons_of_mem _ member)) item.2
    simp [cutRow, later, notHere]

/-- The first cut of a row. -/
theorem cutRow_first (none : ∀ item ∈ before, here item.1 = false) (isHere : here operator = true)
    (first : α) :
    cutRow here first (before ++ (operator, next) :: after) =
      ((first, before), (operator, (cutRow here next after).1) :: (cutRow here next after).2) := by
  induction before generalizing first with
  | nil => simp [cutRow, isHere]
  | cons item before inductionHypothesis =>
    have notHere := none item List.mem_cons_self
    have later := inductionHypothesis (fun other member =>
      none other (List.mem_cons_of_mem _ member)) item.2
    simp [cutRow, later, notHere]

/-- The last cut of a row. -/
theorem cutRow_last (none : ∀ item ∈ after, here item.1 = false) (isHere : here operator = true)
    (first : α) :
    cutRow here first (before ++ (operator, next) :: after) =
      ((cutRow here first before).1, (cutRow here first before).2 ++
        [(operator, (next, after))]) := by
  induction before generalizing first with
  | nil => simp [cutRow, isHere, cutRow_of_forall_not none]
  | cons item before inductionHypothesis =>
    have later := inductionHypothesis item.2
    cases isCutHere : here item.1 <;> simp [cutRow, later, isCutHere]

end

variable {operator : Operator} {first next : Option Float}
  {before after rest : Operands (Option Float)} {cuts : List Operator}

/-- A cut at an operator that does not occur changes nothing. -/
theorem legacyRow_skip (absent : ∀ item ∈ rest, item.1 ≠ operator) :
    legacyRow (operator :: cuts) first rest = legacyRow cuts first rest := by
  have notHere : ∀ item ∈ rest, (item.1 == operator) = false := by simpa using absent
  rw [legacyRow, cutRow_of_forall_not notHere]
  rfl

theorem legacyRow_cut (absent : ∀ item ∈ before, item.1 ≠ operator) :
    legacyRow (operator :: cuts) first (before ++ (operator, next) :: after) =
      operator.combine (legacyRow (operator :: cuts) first before)
        (legacyRow (operator :: cuts) next after) := by
  have notHere : ∀ item ∈ before, (item.1 == operator) = false := by simpa using absent
  have split : cutRow (fun other => other == operator) first
      (before ++ (operator, next) :: after) = _ :=
    cutRow_first notHere (by simp) first
  rw [legacyRow_skip absent, legacyRow, split, legacyRow]
  rfl

theorem legacyRow_skip_all {skipped : List Operator}
    (absent : ∀ other ∈ skipped, ∀ item ∈ rest, item.1 ≠ other) :
    legacyRow (skipped ++ cuts) first rest = legacyRow cuts first rest := by
  induction skipped with
  | nil => rfl
  | cons other skipped inductionHypothesis =>
    rw [List.cons_append, legacyRow_skip (absent other List.mem_cons_self)]
    exact inductionHypothesis fun other member => absent other (List.mem_cons_of_mem _ member)

/-- The cuts of the legacy policy come in the order of their ranks. -/
theorem exists_legacyCuts (operator : Operator) :
    ∃ skipped cuts, [.add, .subtract, .multiply, .divide] = skipped ++ operator :: cuts ∧
      ∀ other ∈ skipped, other.rank .legacy < operator.rank .legacy := by
  cases operator with
  | add => exact ⟨[], _, rfl, by decide⟩
  | subtract => exact ⟨[.add], _, rfl, by decide⟩
  | multiply => exact ⟨[.add, .subtract], _, rfl, by decide⟩
  | divide => exact ⟨[.add, .subtract, .multiply], _, rfl, by decide⟩

/-- The legacy value of a row at the first operator of the least rank. -/
theorem legacyRow_of_isCut (isCut : IsCut .legacy operator before after) :
    legacyRow [.add, .subtract, .multiply, .divide] first (before ++ (operator, next) :: after) =
      operator.combine (legacyRow [.add, .subtract, .multiply, .divide] first before)
        (legacyRow [.add, .subtract, .multiply, .divide] next after) := by
  rcases exists_legacyCuts operator with ⟨skipped, cuts, cuts_eq, lower⟩
  have absent : ∀ other ∈ skipped, ∀ item ∈ before ++ (operator, next) :: after,
      item.1 ≠ other := by
    rintro other isSkipped item member rfl
    exact Nat.not_le.mpr (lower _ isSkipped) (isCut.rank_le item member)
  have absentBefore : ∀ other ∈ skipped, ∀ item ∈ before, item.1 ≠ other :=
    fun other isSkipped item member => absent other isSkipped item (List.mem_append_left _ member)
  have absentAfter : ∀ other ∈ skipped, ∀ item ∈ after, item.1 ≠ other :=
    fun other isSkipped item member =>
      absent other isSkipped item (List.mem_append_right _ (List.mem_cons_of_mem _ member))
  have firstOfItsKind : ∀ item ∈ before, item.1 ≠ operator := by
    rintro item member rfl
    exact isCut.1 item member (Nat.le_refl _)
  rw [cuts_eq, legacyRow_skip_all absent, legacyRow_skip_all absentBefore,
    legacyRow_skip_all absentAfter]
  exact legacyRow_cut firstOfItsKind

theorem fromLeft_append (first next : Option Float) (before : Operands (Option Float)) :
    fromLeft first (before ++ [(operator, next)]) =
      operator.combine (fromLeft first before) next := by
  induction before generalizing first with
  | nil => rfl
  | cons item before inductionHypothesis => exact inductionHypothesis _

/-- The conventional value of a row without sums and differences. -/
theorem conventionalRow_of_forall
    (products : ∀ item ∈ rest, (item.1 == .add || item.1 == .subtract) = false) :
    conventionalRow first rest = fromLeft first rest := by
  rw [conventionalRow, cutRow_of_forall_not products]
  rfl

theorem isSum_iff_rank (operator : Operator) :
    (operator == .add || operator == .subtract) = true ↔ operator.rank .leftAssociative = 0 := by
  cases operator <;> decide

theorem rank_leftAssociative_le (operator : Operator) : operator.rank .leftAssociative ≤ 1 := by
  cases operator <;> decide

theorem isProduct_of_rank_pos {operator : Operator} (later : 0 < operator.rank .leftAssociative) :
    (operator == .add || operator == .subtract) = false := by
  rw [Bool.eq_false_iff, ne_eq, isSum_iff_rank]
  exact Nat.ne_of_gt later

/-- The conventional value of a row at the last operator of the least rank. -/
theorem conventionalRow_of_isCut (isCut : IsCut .leftAssociative operator before after) :
    conventionalRow first (before ++ (operator, next) :: after) =
      operator.combine (conventionalRow first before) (conventionalRow next after) := by
  have products : ∀ item ∈ after, (item.1 == .add || item.1 == .subtract) = false :=
    fun item member => isProduct_of_rank_pos (Nat.zero_lt_of_lt (isCut.2 item member))
  by_cases isSum : (operator == .add || operator == .subtract) = true
  · have split : cutRow (fun other => other == .add || other == .subtract) first
        (before ++ (operator, next) :: after) = _ := cutRow_last products isSum first
    rw [conventionalRow_of_forall products, conventionalRow, split, conventionalRow]
    simp [fromLeft_append]
  · have positive : 0 < operator.rank .leftAssociative :=
      Nat.pos_of_ne_zero fun zero => isSum ((isSum_iff_rank operator).mpr zero)
    -- Behind the last product there is nothing, as there are no ranks above that of products.
    have nothingAfter : after = [] := by
      rw [List.eq_nil_iff_forall_not_mem]
      intro item member
      have greater : operator.rank .leftAssociative < item.1.rank .leftAssociative :=
        isCut.2 item member
      have := rank_leftAssociative_le item.1
      omega
    subst nothingAfter
    have productsAll : ∀ item ∈ before ++ [(operator, next)],
        (item.1 == .add || item.1 == .subtract) = false :=
      fun item member =>
        isProduct_of_rank_pos (Nat.lt_of_lt_of_le positive (isCut.rank_le item member))
    have productsBefore : ∀ item ∈ before, (item.1 == .add || item.1 == .subtract) = false :=
      fun item member => productsAll item (List.mem_append_left _ member)
    rw [conventionalRow_of_forall productsAll, conventionalRow_of_forall productsBefore,
      conventionalRow_of_forall products, fromLeft_append]
    rfl

/-- The value of a row is that of the operator at which it is cut, between those of the parts. -/
theorem rowMeaning_of_isCut {policy : SplitPolicy} (isCut : IsCut policy operator before after) :
    rowMeaning policy first (before ++ (operator, next) :: after) =
      operator.combine (rowMeaning policy first before) (rowMeaning policy next after) := by
  cases policy with
  | legacy => exact legacyRow_of_isCut isCut
  | leftAssociative => exact conventionalRow_of_isCut isCut

end Formulary.Formula
