import Formulary.Proofs.Formula.RowValue

/-!
# Values of single operands

What the text of a single operand settles on: a text in brackets, a sign before a text that is not
split, a power of two numbers, and a logarithm of two numbers.
-/

namespace Formulary.Formula

open Text

variable {policy : SplitPolicy} {text inner left right : List Char} {value : Option Float}

/-! ## Operands that are not split -/

theorem shape?_group (enclosed : Enclosed (fun _ => True) inner) :
    shape? policy ('(' :: (inner ++ [')'])) = some (.wrapped inner) := by
  have notLiteral : literal? ('(' :: (inner ++ [')'])) = none :=
    literal?_eq_none (c := ')') (by simp) (by decide)
  have within : slice? ('(' :: (inner ++ [')'])) 1 (1 + byteLength inner) = some inner :=
    slice?_append ['('] inner [')']
  have last_eq : byteLength ('(' :: (inner ++ [')'])) - 1 = 1 + byteLength inner := by
    rw [byteLength_group, byteLength_nil]
    omega
  rcases exists_bracketPairs_group enclosed .nil with ⟨pairs, pairs_eq, wrapped_iff⟩
  rw [shape?, if_neg (List.cons_ne_nil _ _), notLiteral]
  simp only [pairs_eq, wrapped_iff.mpr, if_true, last_eq, within, Option.map_some]

/-- A text in brackets settles on the value of what is in them. -/
theorem settles_group (enclosed : Enclosed (fun _ => True) inner)
    (part : Settles policy inner value) :
    Settles policy ('(' :: (inner ++ [')'])) value := by
  apply settles_of_wrapped (shape?_group enclosed) _ part
  rw [byteLength_group]
  omega

theorem operandText_group (enclosed : Enclosed (fun _ => True) inner) :
    OperandText ('(' :: (inner ++ [')'])) where
  enclosed := enclosed.wrap
  ends offset before := by
    rw [← List.cons_append, lastOr_append]
    rfl

/-- A character at which no text is split. -/
def Unsplit (c : Char) : Prop :=
  NoOperator c ∧ c ≠ '^'

theorem binaryOffsets_eq_nil {allowed : Char → Prop} {operator : Char}
    (enclosed : Enclosed allowed text)
    (absent : ∀ c, allowed c → c ≠ operator) (sign : Option Bool) :
    binaryOffsets (signText sign ++ text) operator = [] := by
  rcases binaryOffsetsFrom_signText operator sign text with ⟨behind, offsets_eq⟩
  rw [offsets_eq, ← List.append_nil text, binaryOffsetsFrom_append enclosed absent,
    binaryOffsetsFrom_nil]

/-- Without operators outside of brackets there is no split at an operator. -/
theorem splitPoint?_eq_none (enclosed : Enclosed NoOperator text) (sign : Option Bool)
    (preferred other : Operator) :
    splitPoint? policy (signText sign ++ text) preferred other = none := by
  have nothing : ∀ operator : Operator,
      binaryOffsets (signText sign ++ text) operator.symbol = [] :=
    fun operator => binaryOffsets_eq_nil enclosed (fun c isAllowed => isAllowed operator) sign
  exact splitPoint?_of_absent (nothing preferred) (nothing other)

theorem split?_eq_none (enclosed : Enclosed Unsplit text) (sign : Option Bool) :
    split? policy (signText sign ++ text) = none := by
  have noOperator : Enclosed NoOperator text := enclosed.mono fun _ unsplit => unsplit.1
  have noPower : binaryOffsets (signText sign ++ text) '^' = [] :=
    binaryOffsets_eq_nil enclosed (fun c unsplit => unsplit.2) sign
  simp [split?, splitPoint?_eq_none noOperator, noPower]

theorem shape?_sign {c : Char} (enclosed : Enclosed Unsplit text) (member : c ∈ text)
    (foreign : isLiteralChar c = false) (negative : Bool) :
    shape? policy (signText (some negative) ++ text) = some (.signed negative text) := by
  have nonempty : text ≠ [] := List.ne_nil_of_mem member
  rcases exists_unwrapped (enclosed_signText (some negative)) enclosed
    (List.cons_ne_nil _ _) nonempty
    (by simpa [signText] using member) foreign with ⟨pairs, unwrapped⟩
  exact unwrapped.shape?_of_sign (split?_eq_none enclosed (some negative))

/-- A sign before a text that is not split. -/
theorem settles_sign {c : Char} (enclosed : Enclosed Unsplit text) (member : c ∈ text)
    (foreign : isLiteralChar c = false) (part : Settles policy text value) (sign : Option Bool) :
    Settles policy (signText sign ++ text) (value.map (signed sign)) := by
  cases sign with
  | none =>
    cases value <;> exact part
  | some negative =>
    apply settles_of_signed (shape?_sign enclosed member foreign negative) _ part
    cases negative <;> simp [signText, Char.utf8Size]

/-! ## Powers -/

theorem noOperator_power : NoOperator '^' :=
  fun operator => by cases operator <;> decide

theorem operandText_power (leftText : Enclosed NoOperator left) (rightText : OperandText right) :
    OperandText (left ++ '^' :: right) where
  enclosed := leftText.append (.plain (by decide) (by decide) noOperator_power rightText.enclosed)
  ends offset before := by
    rw [lastOr_append, lastOr_cons]
    exact rightText.ends offset _

/-- A power is split at its first `^`, and a sign before it belongs to the base. -/
theorem head?_binaryOffsets_power (leftText : OperandText left) (noPower : Enclosed (· ≠ '^') left)
    (right : List Char) (sign : Option Bool) :
    (binaryOffsets (signText sign ++ (left ++ '^' :: right)) '^').head? =
      some (byteLength (signText sign ++ left)) := by
  rcases binaryOffsetsFrom_signText '^' sign (left ++ '^' :: right) with ⟨behind, offsets_eq⟩
  rw [offsets_eq, binaryOffsetsFrom_append noPower fun _ => id, binaryOffsetsFrom_cons (by decide)
      (by decide), if_pos ⟨rfl, leftText.ends _ _⟩, byteLength_append]
  rfl

theorem shape?_power (leftText : OperandText left) (noPower : Enclosed (· ≠ '^') left)
    (rightText : OperandText right) (sign : Option Bool) :
    shape? policy (signText sign ++ (left ++ '^' :: right)) =
      some (.power (signText sign ++ left) right) := by
  have isText := operandText_power leftText.enclosed rightText
  have leftNonempty := signText_append_ne_nil sign leftText.nonempty
  have member : '^' ∈ (signText sign ++ left ++ '^' :: right).tail := by
    rw [List.tail_append_of_ne_nil leftNonempty]
    simp
  have behind : Enclosed (fun _ => True) ('^' :: right) :=
    .plain (by decide) (by decide) trivial rightText.enclosed.anything
  have unwrapped := exists_unwrapped ((enclosed_signText sign).append leftText.enclosed.anything)
    behind leftNonempty (List.cons_ne_nil _ _) member (by decide)
  rw [List.append_assoc] at unwrapped
  rcases unwrapped with ⟨pairs, unwrapped⟩
  have cut := cutAt?_append (c := '^') (by decide) (signText sign ++ left) right
  rw [List.append_assoc, byteLength_append] at cut
  have split_eq : split? policy (signText sign ++ (left ++ '^' :: right)) =
      some (some (.power (signText sign ++ left) right)) := by
    simp [split?, splitPoint?_eq_none isText.enclosed,
      head?_binaryOffsets_power leftText noPower right, cut]
  exact unwrapped.shape?_of_split (signText_append_ne_nil sign (by simp)) split_eq

section

variable {leftNumber rightNumber : Float}

theorem ne_power_of_isLiteralChar {c : Char} (isLiteral : isLiteralChar c = true) : c ≠ '^' :=
  ne_of_isLiteralChar isLiteral (by decide)

theorem settles_power (leftLiteral : Literal left leftNumber)
    (rightLiteral : Literal right rightNumber) (sign : Option Bool) :
    Settles policy (signText sign ++ (left ++ '^' :: right))
      (some ((signed sign leftNumber).pow rightNumber)) := by
  have noPower : Enclosed (· ≠ '^') left := leftLiteral.enclosed fun _ => ne_power_of_isLiteralChar
  have shape_eq : shape? policy (signText sign ++ (left ++ '^' :: right)) = _ :=
    shape?_power leftLiteral.operandText noPower rightLiteral.operandText sign
  apply settles_of_power shape_eq _ _ (leftLiteral.settles sign) (rightLiteral.settles none)
  · have := Char.utf8Size_pos '^'
    simp
    omega
  · have := Char.utf8Size_pos '^'
    simp
    omega

/-! ## Logarithms -/

/-- Two numbers with a character between them. -/
theorem enclosed_between {allowed : Char → Prop} {c : Char} (leftLiteral : Literal left leftNumber)
    (rightLiteral : Literal right rightNumber) (notOpening : c ≠ '(') (notClosing : c ≠ ')')
    (isAllowed : allowed c) (digitsAllowed : ∀ c, isLiteralChar c = true → allowed c) :
    Enclosed allowed (left ++ c :: right) :=
  (leftLiteral.enclosed digitsAllowed).append
    (.plain notOpening notClosing isAllowed (rightLiteral.enclosed digitsAllowed))

/-- The call of the logarithm of two numbers. -/
def logarithmText (argument base : List Char) : List Char :=
  'l' :: 'o' :: 'g' :: '(' :: (argument ++ ';' :: base ++ [')'])

theorem unsplit_logarithm : Unsplit 'l' ∧ Unsplit 'o' ∧ Unsplit 'g' := by
  refine ⟨⟨?_, by decide⟩, ⟨?_, by decide⟩, ⟨?_, by decide⟩⟩ <;>
  · intro operator
    cases operator <;> decide

theorem enclosed_logarithmText (leftLiteral : Literal left leftNumber)
    (rightLiteral : Literal right rightNumber) : Enclosed Unsplit (logarithmText left right) := by
  have arguments : Enclosed (fun _ => True) (left ++ ';' :: right) :=
    enclosed_between leftLiteral rightLiteral (by decide) (by decide) trivial fun _ _ => trivial
  rcases unsplit_logarithm with ⟨l, o, g⟩
  exact .plain (by decide) (by decide) l (.plain (by decide) (by decide) o
    (.plain (by decide) (by decide) g arguments.wrap))

theorem operandText_logarithm (leftLiteral : Literal left leftNumber)
    (rightLiteral : Literal right rightNumber) : OperandText (logarithmText left right) where
  enclosed := (enclosed_logarithmText leftLiteral rightLiteral).mono fun _ unsplit => unsplit.1
  ends offset before := by
    have parts : logarithmText left right =
        'l' :: 'o' :: 'g' :: '(' :: (left ++ ';' :: right) ++ [')'] := rfl
    rw [parts, lastOr_append]
    rfl

theorem splitArguments?_append (leftLiteral : Literal left leftNumber) (right : List Char) :
    splitArguments? (left ++ ';' :: right) = some (left, right) := by
  have noSemicolon : ∀ c ∈ left, decide (c ≠ ';') = true := fun c member =>
    decide_eq_true (ne_of_isLiteralChar (leftLiteral.characters c member) (by decide))
  rw [splitArguments?, List.dropWhile_append_of_pos noSemicolon,
    List.takeWhile_append_of_pos noSemicolon]
  simp

theorem byteLength_logarithmText (left right : List Char) :
    byteLength (logarithmText left right) - 1 = 4 + byteLength (left ++ ';' :: right) := by
  simp [logarithmText, Char.utf8Size]
  omega

/-- The brackets of a call enclose both its arguments. -/
theorem find?_bracketPairs_logarithmText (leftLiteral : Literal left leftNumber)
    (rightLiteral : Literal right rightNumber) :
    ∃ pairs, bracketPairs (logarithmText left right) = some pairs ∧
      pairs.find? (·.1 == 3) = some (3, 4 + byteLength (left ++ ';' :: right)) := by
  have arguments : Enclosed (fun _ => True) (left ++ ';' :: right) :=
    enclosed_between leftLiteral rightLiteral (by decide) (by decide) trivial fun _ _ => trivial
  rcases arguments.exists_bracketPairsFrom 4 with ⟨within, later, found⟩
  refine ⟨within ++ [(3, 4 + byteLength (left ++ ';' :: right))], ?_, ?_⟩
  · rw [bracketPairs, logarithmText, bracketPairsFrom_plain (by decide) (by decide),
      bracketPairsFrom_plain (by decide) (by decide),
      bracketPairsFrom_plain (by decide) (by decide),
      bracketPairsFrom_opening]
    show bracketPairsFrom 4 [3] _ = _
    rw [found, bracketPairsFrom_closing, bracketPairsFrom]
    rfl
  · have notWithin : within.find? (·.1 == 3) = none := by
      rw [List.find?_eq_none]
      intro pair member
      have := later pair member
      simp only [beq_iff_eq]
      omega
    rw [List.find?_append, notWithin]
    rfl

theorem cutLogarithm_logarithmText (leftLiteral : Literal left leftNumber)
    {pairs : List (Nat × Nat)}
    (found : pairs.find? (·.1 == 3) = some (3, 4 + byteLength (left ++ ';' :: right))) :
    cutLogarithm (logarithmText left right) 0 pairs = some (.logarithm left right) := by
  have within : slice? (logarithmText left right) 4 (4 + byteLength (left ++ ';' :: right)) =
      some (left ++ ';' :: right) := slice?_append ['l', 'o', 'g', '('] _ [')']
  simp only [cutLogarithm, Nat.zero_add, found, byteLength_logarithmText, true_and, if_true, within,
    Option.map_some, splitArguments?_append leftLiteral]

theorem shape?_logarithm (leftLiteral : Literal left leftNumber)
    (rightLiteral : Literal right rightNumber) :
    shape? policy (logarithmText left right) = some (.logarithm left right) := by
  rcases find?_bracketPairs_logarithmText leftLiteral rightLiteral with ⟨pairs, pairs_eq, found⟩
  have notLiteral : literal? (logarithmText left right) = none :=
    literal?_eq_none (c := ';') (by simp [logarithmText]) (by decide)
  have enclosed := enclosed_logarithmText leftLiteral rightLiteral
  have unwrapped : Unwrapped (logarithmText left right) pairs := by
    cases enclosed with
    | plain notOpening notClosing _ behind =>
      rcases bracketPairs_plain_not_wrapped notOpening notClosing behind with
        ⟨others, others_eq, notWrapped⟩
      obtain rfl : pairs = others := Option.some.inj (pairs_eq.symm.trans others_eq)
      exact ⟨notLiteral, pairs_eq, notWrapped⟩
  have shape_eq : shape? policy (logarithmText left right) = _ :=
    unwrapped.shape?_of_logarithm (split?_eq_none enclosed none)
  have cut := cutLogarithm_logarithmText leftLiteral found
  rw [logarithmText] at cut
  rw [cut] at shape_eq
  exact shape_eq

theorem settles_logarithm (leftLiteral : Literal left leftNumber)
    (rightLiteral : Literal right rightNumber) :
    Settles policy (logarithmText left right) (some (logarithm leftNumber rightNumber)) := by
  have shape_eq : shape? policy (logarithmText left right) = _ :=
    shape?_logarithm leftLiteral rightLiteral
  have := Char.utf8Size_pos 'l'
  apply settles_of_logarithm shape_eq _ _ (leftLiteral.settles none) (rightLiteral.settles none)
  · simp [logarithmText]
    omega
  · simp [logarithmText]
    omega

end

end Formulary.Formula
