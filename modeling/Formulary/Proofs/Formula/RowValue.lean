import Formulary.Proofs.Formula.Literal

/-!
# Values of row texts

The text of a row of operands settles on the value of the row. The induction is on the number of
operators: the text is split at one of them, and its two parts are texts of rows with fewer.
-/

namespace Formulary.Formula

open Text

variable {policy : SplitPolicy} {text left right : List Char}

/-! ## Texts that are split -/

/-- A text that is neither a number nor wrapped in brackets, and whose brackets belong together. -/
structure Unwrapped (text : List Char) (pairs : List (Nat × Nat)) : Prop where
  notLiteral : literal? text = none
  pairs_eq : bracketPairs text = some pairs
  notWrapped : isWrapped text pairs = false

variable {pairs : List (Nat × Nat)}

theorem Unwrapped.shape?_of_split (unwrapped : Unwrapped text pairs) {cut : Option Shape}
    (nonempty : text ≠ []) (split_eq : split? policy text = some cut) :
    shape? policy text = cut := by
  rw [shape?, if_neg nonempty, unwrapped.notLiteral]
  simp only [unwrapped.pairs_eq, unwrapped.notWrapped, Bool.false_eq_true, if_false, split_eq]

theorem Unwrapped.shape?_of_sign {negative : Bool} {rest : List Char}
    (unwrapped : Unwrapped (signText (some negative) ++ rest) pairs)
    (noSplit : split? policy (signText (some negative) ++ rest) = none) :
    shape? policy (signText (some negative) ++ rest) = some (.signed negative rest) := by
  rw [shape?, if_neg (by simp [signText]), unwrapped.notLiteral]
  simp only [unwrapped.pairs_eq, unwrapped.notWrapped, Bool.false_eq_true, if_false, noSplit]
  cases negative <;> rfl

theorem Unwrapped.shape?_of_logarithm {rest : List Char}
    (unwrapped : Unwrapped ('l' :: 'o' :: 'g' :: '(' :: rest) pairs)
    (noSplit : split? policy ('l' :: 'o' :: 'g' :: '(' :: rest) = none) :
    shape? policy ('l' :: 'o' :: 'g' :: '(' :: rest) =
      cutLogarithm ('l' :: 'o' :: 'g' :: '(' :: rest) 0 pairs := by
  have outer : outerLogarithm? ('l' :: 'o' :: 'g' :: '(' :: rest) = some 0 := by
    simp [outerLogarithm?, outerLogarithmFrom]
  rw [shape?, if_neg (List.cons_ne_nil _ _), unwrapped.notLiteral]
  simp only [unwrapped.pairs_eq, unwrapped.notWrapped, Bool.false_eq_true, if_false, noSplit, outer]
  rfl

/-- A text that is enclosed and goes on behind its first bracket is not wrapped. -/
theorem exists_unwrapped {allowed other : Char → Prop} {c : Char} (enclosed : Enclosed allowed left)
    (behind : Enclosed other right) (leftNonempty : left ≠ []) (rightNonempty : right ≠ [])
    (member : c ∈ (left ++ right).tail) (foreign : isLiteralChar c = false) :
    ∃ pairs, Unwrapped (left ++ right) pairs := by
  have notLiteral := literal?_eq_none member foreign
  cases enclosed with
  | nil => exact absurd rfl leftNonempty
  | plain notOpening notClosing _ later =>
    rcases bracketPairs_plain_not_wrapped notOpening notClosing
      (later.anything.append behind.anything)
      with ⟨pairs, pairs_eq, notWrapped⟩
    exact ⟨pairs, notLiteral, pairs_eq, notWrapped⟩
  | @group _ inner rest innerEnclosed later =>
    rcases exists_bracketPairs_group innerEnclosed (later.anything.append behind.anything)
      with ⟨pairs, pairs_eq, wrapped_iff⟩
    rw [List.cons_append, List.append_assoc, List.cons_append]
    rw [List.cons_append, List.append_assoc, List.cons_append] at notLiteral
    refine ⟨pairs, notLiteral, pairs_eq, ?_⟩
    rw [Bool.eq_false_iff, ne_eq, wrapped_iff]
    simp [rightNonempty]

/-- Cutting a text at a character of one byte gives what stands before and after it. -/
theorem cutAt?_append {c : Char} (small : c.utf8Size = 1) (left right : List Char) :
    cutAt? (left ++ c :: right) (byteLength left) = some (left, right) := by
  have leftPart := slice?_append [] left (c :: right)
  have rightPart := slice?_append (left ++ [c]) right []
  simp only [List.nil_append, byteLength_nil, Nat.zero_add] at leftPart
  simp only [List.append_nil, List.append_assoc, List.singleton_append, byteLength_append,
    byteLength_cons, byteLength_nil, small, Nat.add_zero] at rightPart
  have whole : byteLength (left ++ c :: right) = byteLength left + 1 + byteLength right := by
    simp [small, Nat.add_assoc]
  rw [cutAt?, leftPart, whole, rightPart]
  rfl

/-! ## Rows -/

section

variable (sign : Option Bool) {first : List Char} {rest : Operands (List Char)}

theorem exists_unwrapped_rowText (firstText : OperandText first)
    (texts : ∀ item ∈ rest, OperandText item.2) (several : rest ≠ []) :
    ∃ pairs, Unwrapped (rowText sign first rest) pairs := by
  rcases List.exists_cons_of_ne_nil several with ⟨⟨operator, next⟩, others, rfl⟩
  have leftNonempty := signText_append_ne_nil sign firstText.nonempty
  have member : operator.symbol ∈ (rowText sign first ((operator, next) :: others)).tail := by
    rw [rowText, List.tail_append_of_ne_nil leftNonempty]
    simp [operandsText]
  have foreign : isLiteralChar operator.symbol = false := by
    cases operator <;> decide
  exact exists_unwrapped ((enclosed_signText sign).append firstText.enclosed.anything)
    (enclosed_operandsText texts) leftNonempty (by simp [operandsText]) member foreign

/-- A row is split at the operator at which it is cut. -/
theorem shape?_rowText {operator : Operator} {next : List Char}
    {before after : Operands (List Char)}
    (firstText : OperandText first)
    (texts : ∀ item ∈ before ++ (operator, next) :: after, OperandText item.2)
    (isCut : IsCut policy operator before after) :
    shape? policy (rowText sign first (before ++ (operator, next) :: after)) =
      some (.binary operator (rowText sign first before) (rowText none next after)) := by
  have splitPoint := isCut.splitPoint?_eq (binaryOffsets_rowText sign firstText texts)
  have offset_eq : byteLength (signText sign ++ first) + byteLength (operandsText before) =
      byteLength (rowText sign first before) := by
    simp [rowText, Nat.add_assoc]
  have nonempty : before ++ (operator, next) :: after ≠ [] := by simp
  rcases exists_unwrapped_rowText sign firstText texts nonempty with ⟨pairs, unwrapped⟩
  have cut := cutAt?_append operator.utf8Size_symbol (rowText sign first before)
    (rowText none next after)
  apply unwrapped.shape?_of_split
  · simp [rowText_cut]
  · rw [split?, splitPoint, offset_eq]
    simp only [rowText_cut, cut, Option.map_some]

end

/-- The texts of operands that have a value each. -/
def operandTexts (rest : Operands (List Char × Option Float)) : Operands (List Char) :=
  rest.map fun item => (item.1, item.2.1)

/-- The values of operands that have a text each. -/
def operandValues (rest : Operands (List Char × Option Float)) : Operands (Option Float) :=
  rest.map fun item => (item.1, item.2.2)

theorem operandTexts_cut (before after : Operands (List Char × Option Float)) (operator : Operator)
    (next : List Char × Option Float) :
    operandTexts (before ++ (operator, next) :: after) =
      operandTexts before ++ (operator, next.1) :: operandTexts after := by
  simp [operandTexts]

theorem operandValues_cut (before after : Operands (List Char × Option Float)) (operator : Operator)
    (next : List Char × Option Float) :
    operandValues (before ++ (operator, next) :: after) =
      operandValues before ++ (operator, next.2) :: operandValues after := by
  simp [operandValues]

/-- A row of operands settles on the value of the row. -/
theorem settles_row {sign : Option Bool} {first : List Char} {firstValue : Option Float}
    {rest : Operands (List Char × Option Float)} (firstText : OperandText first)
    (firstPart : Settles policy (signText sign ++ first) firstValue)
    (parts : ∀ item ∈ rest, OperandText item.2.1 ∧ Settles policy item.2.1 item.2.2) :
    Settles policy (rowText sign first (operandTexts rest))
      (rowMeaning policy firstValue (operandValues rest)) := by
  -- The induction is on the number of operators: a cut leaves fewer of them on either side.
  induction count : rest.length using Nat.strongRecOn generalizing sign first firstValue rest with
  | _ count inductionHypothesis =>
    by_cases single : rest = []
    · subst single
      rw [operandTexts, List.map_nil, rowText_nil]
      cases policy <;> exact firstPart
    rcases exists_isCut policy single with ⟨before, operator, next, after, rfl, isCut⟩
    have leftPart := inductionHypothesis before.length (by simp [← count]) firstText firstPart
      (fun item member => parts item (by simp [member])) rfl
    have nextPart := parts (operator, next) (by simp)
    have rightPart : Settles policy (rowText none next.1 (operandTexts after))
        (rowMeaning policy next.2 (operandValues after)) :=
      inductionHypothesis after.length (by simp [← count]; omega) nextPart.1 nextPart.2
        (fun item member => parts item (by simp [member])) rfl
    have texts : ∀ item ∈ operandTexts (before ++ (operator, next) :: after),
        OperandText item.2 := by
      intro item member
      rcases List.mem_map.mp member with ⟨original, inRow, rfl⟩
      exact (parts original inRow).1
    rw [operandTexts_cut] at texts
    have shape_eq := shape?_rowText sign firstText texts (isCut.map Prod.fst)
    have valuesCut : IsCut policy operator (operandValues before) (operandValues after) :=
      isCut.map Prod.snd
    rw [operandTexts_cut, operandValues_cut, rowMeaning_of_isCut valuesCut]
    apply settles_of_binary shape_eq _ _ leftPart rightPart
    · simp only [rowText_cut, byteLength_append, byteLength_cons, Operator.utf8Size_symbol]
      omega
    · simp only [rowText_cut, byteLength_append, byteLength_cons, Operator.utf8Size_symbol]
      omega

end Formulary.Formula
