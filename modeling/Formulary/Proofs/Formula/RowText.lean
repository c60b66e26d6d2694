import Formulary.Proofs.Formula.Cut
import Formulary.Proofs.Formula.Enclosure

/-!
# Texts of rows

The text of a row of operands has its operators where the row has them, and at no other place
outside of brackets. So it is split at the operator at which the row is cut.
-/

namespace Formulary.Formula

open Text

/-! ## Texts of rows -/

/-- A character that is written for no operator. -/
def NoOperator (c : Char) : Prop :=
  ∀ operator : Operator, c ≠ operator.symbol

/-- A text that can stand between operators: its own operators are in brackets, and an operator
behind it is not taken for a sign. -/
structure OperandText (text : List Char) : Prop where
  enclosed : Enclosed NoOperator text
  ends : ∀ offset before, (Place.mk offset (lastOr before text)).isSign = false

/-- The text of operands with the operators before them. -/
def operandsText : Operands (List Char) → List Char
  | [] => []
  | (operator, text) :: rest => operator.symbol :: (text ++ operandsText rest)

theorem operandsText_append (before after : Operands (List Char)) :
    operandsText (before ++ after) = operandsText before ++ operandsText after := by
  induction before with
  | nil => rfl
  | cons item before inductionHypothesis => simp [operandsText, inductionHypothesis]

/-- The offsets of an operator in a row whose operands begin at an offset. -/
def operatorOffsets (wanted : Operator) : (offset : Nat) → Operands (List Char) → List Nat
  | _, [] => []
  | offset, (operator, text) :: rest =>
    let later := operatorOffsets wanted (offset + 1 + byteLength text) rest
    if operator = wanted then offset :: later else later

section

variable {operator wanted : Operator} {text next : List Char} {offset : Nat}
  {before after rest : Operands (List Char)}

theorem Operator.symbol_inj : operator.symbol = wanted.symbol ↔ operator = wanted := by
  cases operator <;> cases wanted <;> decide

@[simp]
theorem Operator.utf8Size_symbol (operator : Operator) : operator.symbol.utf8Size = 1 := by
  cases operator <;> decide

theorem Operator.symbol_not_bracket (operator : Operator) :
    operator.symbol ≠ '(' ∧ operator.symbol ≠ ')' := by
  cases operator <;> decide

/-- In a row an operator stands where the row has it. -/
theorem binaryOffsetsFrom_operandsText (texts : ∀ item ∈ rest, OperandText item.2)
    {behind : Option Char} (ends : ∀ offset, (Place.mk offset behind).isSign = false)
    (offset : Nat) :
    binaryOffsetsFrom wanted.symbol offset behind (operandsText rest) =
      operatorOffsets wanted offset rest := by
  induction rest generalizing offset behind with
  | nil => rfl
  | cons item rest inductionHypothesis =>
    rcases item with ⟨operator, text⟩
    have isText := texts (operator, text) List.mem_cons_self
    have later := inductionHypothesis (fun item member =>
      texts item (List.mem_cons_of_mem _ member))
      (fun offset => isText.ends offset (some operator.symbol)) (offset + 1 + byteLength text)
    rw [operandsText,
      binaryOffsetsFrom_cons operator.symbol_not_bracket.1 operator.symbol_not_bracket.2,
      binaryOffsetsFrom_append isText.enclosed (fun c allowed => allowed wanted), operatorOffsets,
      Operator.utf8Size_symbol, later]
    simp only [Operator.symbol_inj, ends, and_true]

theorem operatorOffsets_of_forall_ne (absent : ∀ item ∈ rest, item.1 ≠ wanted) (offset : Nat) :
    operatorOffsets wanted offset rest = [] := by
  induction rest generalizing offset with
  | nil => rfl
  | cons item rest inductionHypothesis =>
    simp only [operatorOffsets, if_neg (absent item List.mem_cons_self)]
    exact inductionHypothesis (fun item member => absent item (List.mem_cons_of_mem _ member)) _

theorem operatorOffsets_append (offset : Nat) :
    operatorOffsets wanted offset (before ++ after) =
      operatorOffsets wanted offset before ++
        operatorOffsets wanted (offset + byteLength (operandsText before)) after := by
  induction before generalizing offset with
  | nil => rfl
  | cons item before inductionHypothesis =>
    simp only [List.cons_append, operatorOffsets, inductionHypothesis, operandsText,
      byteLength_cons, byteLength_append, Operator.utf8Size_symbol, Nat.add_assoc]
    split <;> rfl

theorem operatorOffsets_lt (offset : Nat) :
    ∀ place ∈ operatorOffsets wanted offset rest,
      place < offset + byteLength (operandsText rest) := by
  induction rest generalizing offset with
  | nil => simp [operatorOffsets]
  | cons item rest inductionHypothesis =>
    intro place member
    have later := inductionHypothesis (offset + 1 + byteLength item.2) place
    simp only [operatorOffsets] at member
    simp only [operandsText, byteLength_cons, byteLength_append, Operator.utf8Size_symbol]
    split at member
    · rcases List.mem_cons.mp member with rfl | member
      · omega
      · have := later member
        omega
    · have := later member
      omega

/-! ## Where the text of a row is split -/

variable {policy : SplitPolicy}

/-- An operator of lesser rank has no place in a row that is cut elsewhere. -/
theorem IsCut.operatorOffsets_eq_nil (isCut : IsCut policy operator before after)
    (lesser : wanted.rank policy < operator.rank policy) (offset : Nat) :
    operatorOffsets wanted offset (before ++ (operator, next) :: after) = [] := by
  apply operatorOffsets_of_forall_ne
  rintro item member rfl
  exact Nat.not_le.mpr lesser (isCut.rank_le item member)

theorem IsCut.head?_operatorOffsets (isCut : IsCut .legacy operator before after) (offset : Nat) :
    (operatorOffsets operator offset (before ++ (operator, next) :: after)).head? =
      some (offset + byteLength (operandsText before)) := by
  have absent : ∀ item ∈ before, item.1 ≠ operator := by
    rintro item member rfl
    exact isCut.1 item member (Nat.le_refl _)
  rw [operatorOffsets_append, operatorOffsets_of_forall_ne absent, List.nil_append, operatorOffsets,
    if_pos rfl, List.head?_cons]

theorem IsCut.ne_of_rank_eq (isCut : IsCut .leftAssociative operator before after)
    (same : wanted.rank .leftAssociative = operator.rank .leftAssociative) :
    ∀ item ∈ after, item.1 ≠ wanted := by
  rintro item member rfl
  have := isCut.2 item member
  simp only [Operator.CutsBefore] at this
  omega

theorem IsCut.getLast?_operatorOffsets (isCut : IsCut .leftAssociative operator before after)
    (offset : Nat) :
    (operatorOffsets operator offset (before ++ (operator, next) :: after)).getLast? =
      some (offset + byteLength (operandsText before)) := by
  rw [operatorOffsets_append, operatorOffsets, if_pos rfl,
    operatorOffsets_of_forall_ne (isCut.ne_of_rank_eq rfl)]
  simp

/-- An operator of the same rank stands before the cut. -/
theorem IsCut.operatorOffsets_lt (isCut : IsCut .leftAssociative operator before after)
    (different : operator ≠ wanted)
    (same : wanted.rank .leftAssociative = operator.rank .leftAssociative) (offset : Nat) :
    ∀ place ∈ operatorOffsets wanted offset (before ++ (operator, next) :: after),
      place < offset + byteLength (operandsText before) := by
  rw [operatorOffsets_append, operatorOffsets, if_neg different,
    operatorOffsets_of_forall_ne (isCut.ne_of_rank_eq same), List.append_nil]
  exact Formula.operatorOffsets_lt offset

theorem splitPoint?_of_absent {preferred other : Operator}
    (noPreferred : binaryOffsets text preferred.symbol = [])
    (noOther : binaryOffsets text other.symbol = []) :
    splitPoint? policy text preferred other = none := by
  cases policy <;> simp [splitPoint?, noPreferred, noOther]

/-- Of two operators of the same rank, the text is split at the one that stands last. -/
theorem splitPoint?_of_last {other : Operator} {place : Nat}
    (here : (binaryOffsets text operator.symbol).getLast? = some place)
    (earlier : ∀ elsewhere, (binaryOffsets text other.symbol).getLast? = some elsewhere →
      elsewhere < place) :
    splitPoint? .leftAssociative text operator other = some (place, operator) ∧
      splitPoint? .leftAssociative text other operator = some (place, operator) := by
  cases last : (binaryOffsets text other.symbol).getLast? with
  | none => simp [splitPoint?, here, last]
  | some elsewhere =>
    have before := earlier elsewhere last
    simp [splitPoint?, here, last, before, Nat.not_lt.mpr (Nat.le_of_lt before)]

/-- The text of a row is split at the operator at which the row is cut. -/
theorem IsCut.splitPoint?_eq (isCut : IsCut policy operator before after)
    (places : ∀ wanted : Operator, binaryOffsets text wanted.symbol =
      operatorOffsets wanted offset (before ++ (operator, next) :: after)) :
    (splitPoint? policy text .add .subtract <|> splitPoint? policy text .multiply .divide) =
      some (offset + byteLength (operandsText before), operator) := by
  have lesser : ∀ wanted : Operator, wanted.rank policy < operator.rank policy →
      binaryOffsets text wanted.symbol = [] := fun wanted lesser => by
    rw [places, isCut.operatorOffsets_eq_nil lesser]
  cases policy with
  | legacy =>
    have here : (binaryOffsets text operator.symbol).head? =
        some (offset + byteLength (operandsText before)) := by
      rw [places, isCut.head?_operatorOffsets]
    cases operator with
    | add => simp [splitPoint?, here]
    | subtract => simp [splitPoint?, here, lesser .add (by decide)]
    | multiply =>
      simp [splitPoint?, here, lesser .add (by decide), lesser .subtract (by decide)]
    | divide =>
      simp [splitPoint?, here, lesser .add (by decide), lesser .subtract (by decide),
        lesser .multiply (by decide)]
  | leftAssociative =>
    have here : (binaryOffsets text operator.symbol).getLast? =
        some (offset + byteLength (operandsText before)) := by
      rw [places, isCut.getLast?_operatorOffsets]
    have earlier : ∀ wanted : Operator, operator ≠ wanted →
        wanted.rank .leftAssociative = operator.rank .leftAssociative →
          ∀ place, (binaryOffsets text wanted.symbol).getLast? = some place →
            place < offset + byteLength (operandsText before) := by
      intro wanted different same place last
      rw [places] at last
      exact isCut.operatorOffsets_lt different same offset place (List.mem_of_getLast? last)
    cases operator with
    | add =>
      rw [(splitPoint?_of_last here (earlier .subtract (by decide) rfl)).1]
      rfl
    | subtract =>
      rw [(splitPoint?_of_last here (earlier .add (by decide) rfl)).2]
      rfl
    | multiply =>
      rw [splitPoint?_of_absent (lesser .add (by decide)) (lesser .subtract (by decide)),
        (splitPoint?_of_last here (earlier .divide (by decide) rfl)).1]
      rfl
    | divide =>
      rw [splitPoint?_of_absent (lesser .add (by decide)) (lesser .subtract (by decide)),
        (splitPoint?_of_last here (earlier .multiply (by decide) rfl)).2]
      rfl

end

/-! ## Rows with a sign -/

variable {text : List Char}

theorem enclosed_operandsText {rest : Operands (List Char)}
    (texts : ∀ item ∈ rest, OperandText item.2) : Enclosed (fun _ => True) (operandsText rest) := by
  induction rest with
  | nil => exact .nil
  | cons item rest inductionHypothesis =>
    have isText := texts item List.mem_cons_self
    have later := inductionHypothesis fun item member => texts item (List.mem_cons_of_mem _ member)
    rcases item.1.symbol_not_bracket with ⟨notOpening, notClosing⟩
    exact .plain notOpening notClosing trivial (isText.enclosed.anything.append later)

theorem OperandText.nonempty (isText : OperandText text) : text ≠ [] := by
  rintro rfl
  exact absurd (isText.ends 0 none) (by decide)

theorem enclosed_signText (sign : Option Bool) : Enclosed (fun _ => True) (signText sign) := by
  apply enclosed_of_forall
  intro c member
  cases sign with
  | none => exact absurd member List.not_mem_nil
  | some negative =>
    rw [List.mem_singleton.mp member]
    cases negative <;> decide

/-- The sign of the first operand is no operator between operands. -/
theorem binaryOffsetsFrom_signText (operator : Char) (sign : Option Bool) (text : List Char) :
    ∃ behind, binaryOffsets (signText sign ++ text) operator =
      binaryOffsetsFrom operator (byteLength (signText sign)) behind text := by
  cases sign with
  | none => exact ⟨none, rfl⟩
  | some negative =>
    refine ⟨some (if negative then '-' else '+'), ?_⟩
    rw [binaryOffsets_eq, signText, List.singleton_append, binaryOffsetsFrom_cons, if_neg]
    · cases negative <;> rfl
    · rintro ⟨-, isSign⟩
      exact absurd isSign (by decide)
    · cases negative <;> decide
    · cases negative <;> decide

/-- The text of a row: perhaps a sign, the first operand, and the others with their operators. -/
def rowText (sign : Option Bool) (first : List Char) (rest : Operands (List Char)) : List Char :=
  signText sign ++ first ++ operandsText rest

@[simp]
theorem rowText_nil (sign : Option Bool) (first : List Char) :
    rowText sign first [] = signText sign ++ first := by
  simp [rowText, operandsText]

theorem rowText_cut (sign : Option Bool) (first next : List Char) (operator : Operator)
    (before after : Operands (List Char)) :
    rowText sign first (before ++ (operator, next) :: after) =
      rowText sign first before ++ operator.symbol :: rowText none next after := by
  simp [rowText, operandsText_append, operandsText, signText]

theorem enclosed_rowText {sign : Option Bool} {first : List Char} {rest : Operands (List Char)}
    (firstText : OperandText first) (texts : ∀ item ∈ rest, OperandText item.2) :
    Enclosed (fun _ => True) (rowText sign first rest) :=
  ((enclosed_signText sign).append firstText.enclosed.anything).append (enclosed_operandsText texts)

section

variable (sign : Option Bool) {first : List Char} {rest : Operands (List Char)}

/-- In the text of a row an operator stands where the row has it. -/
theorem binaryOffsets_rowText (firstText : OperandText first)
    (texts : ∀ item ∈ rest, OperandText item.2) (wanted : Operator) :
    binaryOffsets (rowText sign first rest) wanted.symbol =
      operatorOffsets wanted (byteLength (signText sign ++ first)) rest := by
  rcases binaryOffsetsFrom_signText wanted.symbol sign (first ++ operandsText rest) with
    ⟨behind, offsets_eq⟩
  have noneWithin : ∀ c, NoOperator c → c ≠ wanted.symbol := fun c noOperator => noOperator wanted
  rw [rowText, List.append_assoc, offsets_eq,
    binaryOffsetsFrom_append firstText.enclosed noneWithin,
    byteLength_append]
  exact binaryOffsetsFrom_operandsText texts (fun offset => firstText.ends offset behind) _

end

end Formulary.Formula
