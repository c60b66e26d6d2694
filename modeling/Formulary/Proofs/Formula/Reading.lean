import Formulary.Proofs.Formula.Acceptance

/-!
# Accepted texts are rows

An accepted text whose decimal digits are ASCII digits is a row of terms. It is read from its last
token to its first: what stands behind a token consists of the rests of the rows that are open
there, with the first term of the innermost row before them if that is missing.
-/

namespace Formulary.Formula

open Text

variable {text left right rest after : List Char} {opened : Nat} {c : Char}

/-! ## Open brackets -/

/-- Behind the brackets that are open the text closes them all. -/
def Closes (opened : Nat) (text : List Char) : Prop :=
  ∃ offset closedMarker, bracketFault? offset opened closedMarker text = none

theorem Closes.eq_zero (closes : Closes opened []) : opened = 0 := by
  rcases closes with ⟨offset, closedMarker, noFault⟩
  rw [bracketFault?] at noFault
  split at noFault
  · assumption
  · cases noFault

/-- What is left to close behind the first character. -/
theorem Closes.tail (closes : Closes opened (c :: rest)) :
    (c = ')' → opened ≠ 0) ∧
      Closes (if c = '(' then opened + 1 else if c = ')' then opened - 1 else opened) rest := by
  rcases closes with ⟨offset, closedMarker, noFault⟩
  rw [bracketFault?] at noFault
  split at noFault
  · cases noFault
  rename_i notUnopened
  split at noFault
  · cases noFault
  · exact ⟨fun isClosing isZero => notUnopened ⟨isClosing, isZero⟩, _, _, noFault⟩

theorem Closes.opening (closes : Closes opened ('(' :: rest)) : Closes (opened + 1) rest :=
  closes.tail.2

theorem Closes.closing (closes : Closes opened (')' :: rest)) :
    ∃ outer, opened = outer + 1 ∧ Closes outer rest := by
  rcases closes.tail with ⟨positive, later⟩
  rcases Nat.exists_eq_succ_of_ne_zero (positive rfl) with ⟨outer, rfl⟩
  exact ⟨outer, rfl, later⟩

theorem Closes.plain (closes : Closes opened (left ++ right))
    (plain : ∀ c ∈ left, c ≠ '(' ∧ c ≠ ')') : Closes opened right := by
  induction left with
  | nil => exact closes
  | cons c rest inductionHypothesis =>
    rcases plain c List.mem_cons_self with ⟨notOpening, notClosing⟩
    have later := closes.tail.2
    rw [if_neg notOpening, if_neg notClosing] at later
    exact inductionHypothesis later fun other member => plain other (List.mem_cons_of_mem _ member)

/-! ## Rests of rows -/

/-- The rests of the rows that are open, the innermost first, with their closing brackets. -/
inductive Tail : Nat → List Char → Prop where
  | done : Tail 0 []
  | closing {opened : Nat} {after : List Char} :
      Tail opened after → Tail (opened + 1) (')' :: after)
  | operand {opened : Nat} {operator : Operator} {term after : List Char} :
      IsTerm IsRun term → Tail opened after → Tail opened (operator.symbol :: (term ++ after))

/-- The rest of the innermost row is made of operands, and closed if there is a row around it. -/
theorem Tail.exists_operands (tail : Tail opened text) :
    ∃ rest : Operands (List Char), (∀ item ∈ rest, IsTerm IsRun item.2) ∧
      (opened = 0 ∧ text = operandsText rest ∨
        ∃ outer after, opened = outer + 1 ∧ text = operandsText rest ++ ')' :: after ∧
          Tail outer after) := by
  induction tail with
  | done => exact ⟨[], by simp, .inl ⟨rfl, rfl⟩⟩
  | @closing outer after later _ => exact ⟨[], by simp, .inr ⟨outer, after, rfl, rfl, later⟩⟩
  | @operand opened operator term after isTerm _ inductionHypothesis =>
    rcases inductionHypothesis with ⟨rest, isRest, ending⟩
    refine ⟨(operator, term) :: rest, List.forall_mem_cons.mpr ⟨isTerm, isRest⟩, ?_⟩
    rcases ending with ⟨isZero, rfl⟩ | ⟨outer, behind, isOpen, rfl, later⟩
    · exact .inl ⟨isZero, rfl⟩
    · exact .inr ⟨outer, behind, isOpen, by simp [operandsText], later⟩

/-- What can stand behind a token: the rests of the open rows, or these behind the first term of the
innermost. -/
inductive Reading : Nat → List Char → Prop where
  | tail {opened : Nat} {text : List Char} : Tail opened text → Reading opened text
  | powers {opened : Nat} {c : Char} {rest after : List Char} :
      isAsciiDigit c = true → IsPowers IsRun (c :: rest) → Tail opened after →
        Reading opened (c :: (rest ++ after))
  | group {opened : Nat} {c : Char} {rest after : List Char} :
      beginsGroup c = true → IsTerm IsRun (c :: rest) → Tail opened after →
        Reading opened (c :: (rest ++ after))

/-- A row is read from its sign and its first term on. -/
theorem Reading.exists_first (reading : Reading opened text) (nonempty : text ≠ [])
    (begins : ∀ c ∈ text.head?, c ≠ '*' ∧ c ≠ '/' ∧ c ≠ ')') :
    ∃ sign first after, text = signText sign ++ (first ++ after) ∧ IsTerm IsRun first ∧
      Tail opened after := by
  cases reading with
  | powers _ isPowers tail => exact ⟨none, _, _, rfl, .powers isPowers, tail⟩
  | group _ isTerm tail => exact ⟨none, _, _, rfl, isTerm, tail⟩
  | tail tail =>
    cases tail with
    | done => exact absurd rfl nonempty
    | closing => exact absurd rfl (begins ')' rfl).2.2
    | @operand _ operator term after isTerm later =>
      cases operator with
      | add => exact ⟨some false, term, after, rfl, isTerm, later⟩
      | subtract => exact ⟨some true, term, after, rfl, isTerm, later⟩
      | multiply => exact absurd rfl (begins '*' rfl).1
      | divide => exact absurd rfl (begins '/' rfl).2.1

/-! ## Reading one more token -/

/-- No operand stands directly behind one that ends with a bracket. -/
theorem Reading.tail_of_fits (reading : Reading opened after) {last : Char}
    (isBracket : last = ')' ∨ last = '}') (fits : ∀ c ∈ after.head?, Fits last c) :
    Tail opened after := by
  cases reading with
  | tail tail => exact tail
  | @powers c _ _ digit =>
    have notJoined := (fits c rfl).notJoined
    rcases isBracket with rfl | rfl <;> simp [joinsOperands, digit] at notJoined
  | @group c _ _ begins =>
    have notJoined := (fits c rfl).notJoined
    rcases isBracket with rfl | rfl <;> simp [joinsOperands, endsOperand, begins] at notJoined

theorem Reading.before_powers (reading : Reading opened after) (isPowers : IsPowers IsRun text)
    (fits : ∀ last ∈ text.getLast?, ∀ c ∈ after.head?, Fits last c) :
    Reading opened (text ++ after) := by
  rcases isPowers.begins with ⟨first, rest, rfl, digit⟩
  cases reading with
  | tail tail => exact .powers digit isPowers tail
  | powers _ others tail =>
    rw [← List.cons_append, ← List.append_assoc]
    exact .powers digit (isPowers.append others) tail
  | @group c _ _ begins =>
    rcases isPowers.ends with ⟨last, isLast, isDigit⟩
    have notJoined := (fits last isLast c rfl).notJoined
    simp [joinsOperands, endsOperand, isDigit, begins] at notJoined

theorem Reading.before_opening (reading : Reading (opened + 1) after) (nonempty : after ≠ [])
    (fits : ∀ c ∈ after.head?, Fits '(' c) : Reading opened ('(' :: after) := by
  have begins : ∀ c ∈ after.head?, c ≠ '*' ∧ c ≠ '/' ∧ c ≠ ')' := by
    intro c isHead
    have notMissing := (fits c isHead).notMissing
    refine ⟨?_, ?_, ?_⟩ <;> rintro rfl <;> simp [missesOperand] at notMissing
  rcases reading.exists_first nonempty begins with ⟨sign, first, behind, rfl, isFirst, tail⟩
  rcases tail.exists_operands with
    ⟨rest, isRest, ⟨impossible, -⟩ | ⟨outer, later, same, rfl, ending⟩⟩
  · exact absurd impossible (Nat.succ_ne_zero _)
  cases same
  have isGroup : IsTerm IsRun ('(' :: (rowText sign first rest ++ [')'])) := .group isFirst isRest
  have reading : Reading opened ('(' :: ((rowText sign first rest ++ [')']) ++ later)) :=
    .group rfl isGroup ending
  simpa [rowText] using reading

theorem isOperator_symbol (operator : Operator) : isOperator operator.symbol = true := by
  cases operator <;> rfl

theorem Reading.before_operator (reading : Reading opened after) (operator : Operator)
    (nonempty : after ≠ []) (fits : ∀ c ∈ after.head?, Fits operator.symbol c) :
    Reading opened (operator.symbol :: after) := by
  cases reading with
  | powers _ isPowers tail => exact .tail (.operand (.powers isPowers) tail)
  | group _ isTerm tail => exact .tail (.operand isTerm tail)
  | tail tail =>
    cases tail with
    | done => exact absurd rfl nonempty
    | closing =>
      have notMissing := (fits ')' rfl).notMissing
      simp [missesOperand, isOperator_symbol] at notMissing
    | @operand _ other _ _ =>
      have notOperators := (fits other.symbol rfl).notOperators
      simp [isOperator_symbol] at notOperators

theorem noBracket_of_isLiteralChar (isLiteral : isLiteralChar c = true) : c ≠ '(' ∧ c ≠ ')' :=
  ⟨ne_of_isLiteralChar isLiteral (by decide), ne_of_isLiteralChar isLiteral (by decide)⟩

theorem Closes.logarithm {argument base : Numeral}
    (closes : Closes opened (logarithmText argument.text base.text ++ after)) :
    Closes opened after := by
  have parts : logarithmText argument.text base.text ++ after =
      ['l', 'o', 'g'] ++ '(' :: ((argument.text ++ ';' :: base.text) ++ ')' :: after) := by
    simp [logarithmText]
  rw [parts] at closes
  have name : ∀ c ∈ ['l', 'o', 'g'], c ≠ '(' ∧ c ≠ ')' := by simp
  have arguments : ∀ c ∈ argument.text ++ ';' :: base.text, c ≠ '(' ∧ c ≠ ')' := by
    intro c member
    rcases List.mem_append.mp member with member | member
    · exact noBracket_of_isLiteralChar (argument.literal.characters c member)
    rcases List.mem_cons.mp member with rfl | member
    · decide
    · exact noBracket_of_isLiteralChar (base.literal.characters c member)
  rcases ((closes.plain name).opening.plain arguments).closing with ⟨outer, same, later⟩
  cases same
  exact later

theorem Closes.marker {digits : List Char} (ascii : ∀ c ∈ digits, isAsciiDigit c = true)
    (closes : Closes opened ('{' :: (digits ++ ['}']) ++ after)) : Closes opened after := by
  apply closes.plain
  intro c member
  rcases List.mem_cons.mp member with rfl | member
  · decide
  rcases List.mem_append.mp member with member | member
  · exact noBracket_of_isLiteralChar (by simp [isLiteralChar, ascii c member])
  · rw [List.mem_singleton.mp member]
    decide

theorem Reading.before_symbol {symbol : Char} (isSymbol : symbol ∈ ['+', '-', '*', '/', '(', ')'])
    (behind : ∀ opened, Closes opened after → Reading opened after)
    (closes : Closes opened (symbol :: after))
    (ends : ∀ c ∈ (symbol :: after).getLast?, isOperator c = false)
    (fits : ∀ c ∈ after.head?, Fits symbol c) : Reading opened (symbol :: after) := by
  have operatorCase : ∀ operator : Operator, symbol = operator.symbol →
      Reading opened (symbol :: after) := by
    rintro operator rfl
    have closesBehind : Closes opened ([operator.symbol] ++ after) := closes
    have later : Closes opened after := closesBehind.plain fun c member => by
      rw [List.mem_singleton.mp member]
      exact operator.symbol_not_bracket
    refine (behind opened later).before_operator operator ?_ fits
    rintro rfl
    have notOperator := ends operator.symbol rfl
    rw [isOperator_symbol] at notOperator
    cases notOperator
  simp only [List.mem_cons, List.not_mem_nil, or_false] at isSymbol
  rcases isSymbol with rfl | rfl | rfl | rfl | rfl | rfl
  · exact operatorCase .add rfl
  · exact operatorCase .subtract rfl
  · exact operatorCase .multiply rfl
  · exact operatorCase .divide rfl
  · have later := closes.opening
    refine (behind _ later).before_opening ?_ fits
    rintro rfl
    exact absurd later.eq_zero (Nat.succ_ne_zero _)
  · rcases closes.closing with ⟨outer, rfl, later⟩
    exact .tail (.closing ((behind outer later).tail_of_fits (.inl rfl) fits))

/-- One more token is read before what has been read behind it. -/
theorem Reading.before_token {token : List Char} (isToken : IsToken token)
    (behind : ∀ opened, Closes opened after → Reading opened after)
    (closes : Closes opened (token ++ after))
    (ends : ∀ c ∈ (token ++ after).getLast?, isOperator c = false)
    (fits : ∀ last ∈ token.getLast?, ∀ c ∈ after.head?, Fits last c) :
    Reading opened (token ++ after) := by
  cases isToken with
  | powers isPowers =>
    have later : Closes opened after := closes.plain fun c member =>
      ⟨isPowers.ne_of_mem member (by decide) (by decide),
        isPowers.ne_of_mem member (by decide) (by decide)⟩
    exact (behind opened later).before_powers isPowers fits
  | logarithm argument base =>
    have parts : logarithmText argument.text base.text =
        'l' :: 'o' :: 'g' :: '(' :: (argument.text ++ ';' :: base.text) ++ [')'] := rfl
    have isLast : (logarithmText argument.text base.text).getLast? = some ')' := by
      rw [parts, List.getLast?_concat]
    have reading := behind opened closes.logarithm
    exact .group rfl (.logarithm argument base) (reading.tail_of_fits (.inl rfl) (fits ')' isLast))
  | @marker digits nonempty ascii =>
    have isLast : ('{' :: (digits ++ ['}'])).getLast? = some '}' := by
      rw [← List.cons_append, List.getLast?_concat]
    have reading := behind opened (closes.marker ascii)
    exact .group rfl (.marker nonempty ascii) (reading.tail_of_fits (.inr rfl) (fits '}' isLast))
  | symbol isSymbol => exact .before_symbol isSymbol behind closes ends (fits _ rfl)

/-! ## Reading a text -/

/-- A list of tokens whose neighbouring characters fit is read from the last of them on. -/
theorem reading_of_tokens {tokens : List (List Char)} (isToken : ∀ token ∈ tokens, IsToken token)
    (chain : tokens.flatten.IsChain Fits)
    (ends : ∀ c ∈ tokens.flatten.getLast?, isOperator c = false)
    (closes : Closes opened tokens.flatten) : Reading opened tokens.flatten := by
  induction tokens generalizing opened with
  | nil =>
    obtain rfl := closes.eq_zero
    exact .tail .done
  | cons token tokens inductionHypothesis =>
    rw [List.flatten_cons] at chain ends closes ⊢
    rcases List.isChain_append.mp chain with ⟨-, laterChain, fits⟩
    have laterEnds : ∀ c ∈ tokens.flatten.getLast?, isOperator c = false := by
      intro c isLast
      apply ends c
      rw [List.getLast?_append, isLast]
      rfl
    exact Reading.before_token (isToken token List.mem_cons_self)
      (fun _ => inductionHypothesis
        (fun other member => isToken other (List.mem_cons_of_mem _ member)) laterChain laterEnds)
      closes ends fits

/-- An accepted text whose decimal digits are ASCII digits is a row of terms. -/
theorem Accepted.isRow (accepted : Accepted text) (ascii : AsciiDigits text) :
    IsRow IsRun text := by
  rcases accepted.exists_tokens ascii with ⟨tokens, text_eq, isToken⟩
  have closes : Closes 0 text := ⟨0, false, accepted.brackets⟩
  have reading : Reading 0 text := by
    rw [text_eq]
    exact reading_of_tokens isToken (text_eq ▸ accepted.neighbours) (text_eq ▸ accepted.ends)
      (text_eq ▸ closes)
  have begins : ∀ c ∈ text.head?, c ≠ '*' ∧ c ≠ '/' ∧ c ≠ ')' := by
    intro c isHead
    rcases accepted.begins c isHead with ⟨notTimes, notOver⟩
    refine ⟨notTimes, notOver, ?_⟩
    rintro rfl
    rcases List.head?_eq_some_iff.mp isHead with ⟨rest, rfl⟩
    rcases closes.closing with ⟨outer, impossible, -⟩
    cases impossible
  rcases reading.exists_first accepted.nonempty begins with ⟨sign, first, after, rfl, isFirst, tail⟩
  rcases tail.exists_operands with ⟨rest, isRest, ⟨-, rfl⟩ | ⟨outer, _, impossible, -⟩⟩
  · rw [← List.append_assoc]
    exact .row isFirst isRest
  · cases impossible

end Formulary.Formula
