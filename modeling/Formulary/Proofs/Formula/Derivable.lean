import Formulary.Proofs.Formula.Reading

/-!
# Trees spell accepted texts

The text that a tree spells passes all the conditions of acceptance. A term is seen from the text
around it: its tokens, its first and its last character, and its brackets, which belong together.
Terms with operators between them, a sign before such a row and brackets around it are acceptable
because their parts are.
-/

namespace Formulary.Formula

open Text
open Text.Pattern (Matches matches_seq_iff matches_many_cons_iff)

variable {text left right after : List Char} {first second c : Char}

/-! ## Characters side by side -/

/-- A character that asks nothing of those beside it. -/
structure Inert (c : Char) : Prop where
  notOperator : isOperator c = false
  notGroup : beginsGroup c = false
  notOpening : c ≠ '('
  notClosing : c ≠ ')'
  notEnding : c ≠ '}'

/-- A term can begin with this character. -/
def BeginsTerm (c : Char) : Prop :=
  isAsciiDigit c = true ∨ beginsGroup c = true

/-- A row can begin with this character. -/
def BeginsRow (c : Char) : Prop :=
  c ≠ '*' ∧ c ≠ '/' ∧ c ≠ ')'

theorem fits_behind_inert (inert : Inert first) (notGroup : beginsGroup second = false) :
    Fits first second := by
  constructor
  · rw [inert.notOperator, Bool.false_and]
  · simp [joinsOperands, notGroup, inert.notClosing, inert.notEnding]
  · simp [missesOperand, inert.notOpening, inert.notOperator]

theorem inert_of_isAsciiDigit (digit : isAsciiDigit c = true) : Inert c := by
  have different : ∀ other, isAsciiDigit other = false → c ≠ other := fun other =>
    Number.ne_of_isAsciiDigit digit
  constructor
  · simp [isOperator, different '+' (by decide), different '-' (by decide),
      different '*' (by decide), different '/' (by decide)]
  · simp [beginsGroup, different '(' (by decide), different '{' (by decide),
      different 'l' (by decide)]
  · exact different '(' (by decide)
  · exact different ')' (by decide)
  · exact different '}' (by decide)

/-- A character that ends a term is no operator and opens no bracket. -/
theorem plain_of_endsOperand (ends : endsOperand c = true) : isOperator c = false ∧ c ≠ '(' := by
  simp only [endsOperand, Bool.or_eq_true, beq_iff_eq] at ends
  rcases ends with (digit | rfl) | rfl
  · have inert := inert_of_isAsciiDigit digit
    exact ⟨inert.notOperator, inert.notOpening⟩
  · decide
  · decide

theorem BeginsTerm.plain (begins : BeginsTerm c) :
    isOperator c = false ∧ c ≠ ')' ∧ c ≠ '*' ∧ c ≠ '/' := by
  rcases begins with digit | group
  · have inert := inert_of_isAsciiDigit digit
    refine ⟨inert.notOperator, inert.notClosing, ?_, ?_⟩
    · exact Number.ne_of_isAsciiDigit digit (by decide)
    · exact Number.ne_of_isAsciiDigit digit (by decide)
  · simp only [beginsGroup, Bool.or_eq_true, beq_iff_eq] at group
    rcases group with (rfl | rfl) | rfl
    all_goals decide

theorem BeginsTerm.beginsRow (begins : BeginsTerm c) : BeginsRow c := by
  rcases begins.plain with ⟨-, notClosing, notTimes, notOver⟩
  exact ⟨notTimes, notOver, notClosing⟩

/-- An operator fits behind a term. -/
theorem fits_operator (ends : endsOperand c = true) (operator : Operator) :
    Fits c operator.symbol := by
  rcases plain_of_endsOperand ends with ⟨notOperator, notOpening⟩
  constructor
  · rw [notOperator, Bool.false_and]
  · cases operator <;> simp [joinsOperands, Operator.symbol, beginsGroup, isAsciiDigit]
  · simp [missesOperand, notOpening, notOperator]

/-- A term fits behind an operator. -/
theorem fits_behind_operator (begins : BeginsTerm c) (operator : Operator) :
    Fits operator.symbol c := by
  rcases begins.plain with ⟨notOperator, notClosing, -, -⟩
  constructor
  · rw [notOperator, Bool.and_false]
  · cases operator <;> simp [joinsOperands, Operator.symbol, endsOperand, isAsciiDigit]
  · cases operator <;> simp [missesOperand, Operator.symbol, notClosing]

theorem fits_opening (begins : BeginsRow c) : Fits '(' c := by
  rcases begins with ⟨notTimes, notOver, notClosing⟩
  constructor
  · rfl
  · simp [joinsOperands, endsOperand, isAsciiDigit]
  · simp [missesOperand, isOperator, notTimes, notOver, notClosing]

theorem fits_closing (ends : endsOperand c = true) : Fits c ')' := by
  rcases plain_of_endsOperand ends with ⟨notOperator, notOpening⟩
  constructor
  · rw [notOperator, Bool.false_and]
  · simp [joinsOperands, beginsGroup, isAsciiDigit]
  · simp [missesOperand, notOpening, notOperator]

/-! ## Rows of tokens -/

/-- Tokens and then more tokens. -/
theorem matches_many_append {body : Pattern} (before : Matches (.many body) left)
    (behind : Matches (.many body) right) : Matches (.many body) (left ++ right) := by
  generalize pattern_eq : Pattern.many body = pattern at before
  induction before with
  | stop =>
    cases pattern_eq
    exact behind
  | more belongs _ _ inductionHypothesis =>
    cases pattern_eq
    rw [List.append_assoc]
    exact .more belongs (inductionHypothesis rfl)
  | _ => cases pattern_eq

theorem matches_many_of_token (belongs : Matches tokenPattern text) :
    Matches (.many tokenPattern) text := by
  have row := Matches.more belongs .stop
  rwa [List.append_nil] at row

theorem matches_symbol (isSymbol : c ∈ ['+', '-', '*', '/', '(', ')']) :
    Matches (.many tokenPattern) [c] := by
  apply matches_many_of_token
  apply Pattern.accepts_iff.mp
  simp only [List.mem_cons, List.not_mem_nil, or_false] at isSymbol
  rcases isSymbol with rfl | rfl | rfl | rfl | rfl | rfl
  all_goals decide +kernel

theorem matches_digit (digit : isAsciiDigit c = true) : Matches (.one .digit) [c] :=
  .one (isDecimalDigit_of_isAsciiDigit digit)

theorem matches_many_digits (digits : ∀ c ∈ text, isAsciiDigit c = true) :
    Matches (.many (.one .digit)) text := by
  induction text with
  | nil => exact .stop
  | cons c rest inductionHypothesis =>
    exact .more (matches_digit (digits c List.mem_cons_self))
      (inductionHypothesis fun other member => digits other (List.mem_cons_of_mem _ member))

/-! ## Numbers -/

theorem matches_digits {digits : List (Fin 10)} (nonempty : digits ≠ []) :
    Matches (.repeated (.one .digit)) (digits.map digitChar) := by
  cases digits with
  | nil => exact absurd rfl nonempty
  | cons first others =>
    exact .seq (matches_digit (digitChar_isAsciiDigit first))
      (matches_many_digits fun _ => isAsciiDigit_of_mem_map)

theorem Numeral.belongs (numeral : Numeral) : Matches numberPattern numeral.text := by
  have whole := matches_digits (List.cons_ne_nil numeral.first numeral.others)
  simp only [Numeral.text]
  split
  · have number : Matches numberPattern (_ ++ []) :=
      .seq whole (Pattern.matches_optional_iff.mpr (.inl rfl))
    rwa [List.append_nil] at number
  · rename_i nonempty
    have point : Matches (.literal ['.']) ['.'] := Pattern.matches_literal_iff.mpr rfl
    have behind := Matches.seq point (matches_digits nonempty)
    exact .seq whole (Pattern.matches_optional_iff.mpr (.inr behind))

/-- Digits, points and power signs. -/
def isPowerChar (c : Char) : Bool :=
  isAsciiDigit c || c == '.' || c == '^'

theorem inert_of_isPowerChar (isPower : isPowerChar c = true) : Inert c := by
  simp only [isPowerChar, Bool.or_eq_true, beq_iff_eq] at isPower
  rcases isPower with (digit | rfl) | rfl
  · exact inert_of_isAsciiDigit digit
  · constructor <;> decide
  · constructor <;> decide

theorem IsRun.isPowerChar (isRun : IsRun text) : ∀ c ∈ text, isPowerChar c = true := by
  intro c member
  rcases isRun.characters c member with digit | rfl
  · simp [Formula.isPowerChar, digit]
  · decide

theorem isChain_of_inert (inert : ∀ c ∈ text, Inert c) : text.IsChain Fits := by
  induction text with
  | nil => exact .nil
  | cons c rest inductionHypothesis =>
    apply List.isChain_cons.mpr
    constructor
    · intro next isHead
      have inRest := List.mem_of_mem_head? isHead
      exact fits_behind_inert (inert c List.mem_cons_self)
        (inert next (List.mem_cons_of_mem _ inRest)).notGroup
    · exact inductionHypothesis fun other member => inert other (List.mem_cons_of_mem _ member)

/-! ## Acceptable parts -/

/-- What a text has to be so that it can stand in an accepted text. -/
structure Acceptable (canBegin : Char → Prop) (text : List Char) : Prop where
  tokens : Matches (.many tokenPattern) text
  neighbours : text.IsChain Fits
  begins : ∃ c ∈ text.head?, canBegin c
  ends : ∃ c ∈ text.getLast?, endsOperand c = true
  enclosed : Enclosed (fun _ => True) text

/-- What stands where a term can stand can also stand where a row can. -/
theorem Acceptable.row (term : Acceptable BeginsTerm text) : Acceptable BeginsRow text where
  tokens := term.tokens
  neighbours := term.neighbours
  begins := by
    rcases term.begins with ⟨c, isHead, begins⟩
    exact ⟨c, isHead, begins.beginsRow⟩
  ends := term.ends
  enclosed := term.enclosed

/-- A text of digits, points and power signs that is a token. -/
theorem acceptable_power (belongs : Matches powerPattern text)
    (characters : ∀ c ∈ text, isPowerChar c = true)
    (begins : ∃ c ∈ text.head?, isAsciiDigit c = true)
    (ends : ∃ c ∈ text.getLast?, isAsciiDigit c = true) : Acceptable BeginsTerm text where
  tokens := matches_many_of_token (.right (.left belongs))
  neighbours := isChain_of_inert fun c member => inert_of_isPowerChar (characters c member)
  begins := by
    rcases begins with ⟨c, isHead, digit⟩
    exact ⟨c, isHead, .inl digit⟩
  ends := by
    rcases ends with ⟨c, isLast, digit⟩
    exact ⟨c, isLast, by simp [endsOperand, digit]⟩
  enclosed := enclosed_of_forall fun c member =>
    have inert := inert_of_isPowerChar (characters c member)
    ⟨inert.notOpening, inert.notClosing, trivial⟩

theorem acceptable_number (numeral : Numeral) : Acceptable BeginsTerm numeral.text := by
  have belongs : Matches powerPattern (numeral.text ++ []) :=
    .seq numeral.belongs (Pattern.matches_optional_iff.mpr (.inl rfl))
  rw [List.append_nil] at belongs
  have isRun := numeral.isRun
  exact acceptable_power belongs isRun.isPowerChar isRun.begins isRun.ends

theorem isPowerChar_power (base exponent : Numeral) :
    ∀ c ∈ base.text ++ '^' :: exponent.text, isPowerChar c = true := by
  intro c member
  rcases List.mem_append.mp member with member | member
  · exact base.isRun.isPowerChar c member
  rcases List.mem_cons.mp member with rfl | member
  · decide
  · exact exponent.isRun.isPowerChar c member

theorem acceptable_numberPower (base exponent : Numeral) :
    Acceptable BeginsTerm (base.text ++ '^' :: exponent.text) := by
  have sign : Matches (.literal ['^']) ['^'] := Pattern.matches_literal_iff.mpr rfl
  have behind := Matches.seq sign exponent.belongs
  have belongs : Matches powerPattern (base.text ++ '^' :: exponent.text) :=
    .seq base.belongs (Pattern.matches_optional_iff.mpr (.inr behind))
  apply acceptable_power belongs (isPowerChar_power base exponent)
  · rw [List.head?_append_of_ne_nil _ base.isRun.ne_nil]
    exact base.isRun.begins
  · rw [List.getLast?_append_of_ne_nil _ (List.cons_ne_nil _ _),
      List.getLast?_cons_of_ne_nil exponent.isRun.ne_nil]
    exact exponent.isRun.ends

theorem matches_logarithm (argument base : Numeral) :
    Matches logarithmPattern (logarithmText argument.text base.text) := by
  have name : Matches (.literal ['l', 'o', 'g', '(']) ['l', 'o', 'g', '('] :=
    Pattern.matches_literal_iff.mpr rfl
  have semicolon : Matches (.literal [';']) [';'] := Pattern.matches_literal_iff.mpr rfl
  have closing : Matches (.literal [')']) [')'] := Pattern.matches_literal_iff.mpr rfl
  have belongs : Matches logarithmPattern _ :=
    .seq name (.seq argument.belongs (.seq semicolon (.seq base.belongs closing)))
  rw [logarithmText]
  simpa using belongs

theorem inert_arguments (argument base : Numeral) :
    ∀ c ∈ argument.text ++ ';' :: base.text, Inert c := by
  intro c member
  rcases List.mem_append.mp member with member | member
  · exact inert_of_isPowerChar (argument.isRun.isPowerChar c member)
  rcases List.mem_cons.mp member with rfl | member
  · constructor <;> decide
  · exact inert_of_isPowerChar (base.isRun.isPowerChar c member)

/-- Brackets fit around what begins as a row can begin and ends as a term can end. -/
theorem isChain_group (neighbours : text.IsChain Fits) (begins : ∃ c ∈ text.head?, BeginsRow c)
    (ends : ∃ c ∈ text.getLast?, endsOperand c = true) : ('(' :: (text ++ [')'])).IsChain Fits := by
  rcases begins with ⟨first, isHead, begins⟩
  rcases ends with ⟨last, isLast, ends⟩
  have nonempty : text ≠ [] := by
    rintro rfl
    cases isHead
  apply List.isChain_cons.mpr
  constructor
  · intro c isFirst
    rw [List.head?_append_of_ne_nil _ nonempty, isHead] at isFirst
    cases isFirst
    exact fits_opening begins
  · apply List.isChain_append.mpr
    refine ⟨neighbours, .singleton ')', ?_⟩
    intro c isEnd closing isClosing
    rw [isLast] at isEnd
    cases isEnd
    cases isClosing
    exact fits_closing ends

theorem acceptable_logarithm (argument base : Numeral) :
    Acceptable BeginsTerm (logarithmText argument.text base.text) where
  tokens := matches_many_of_token (.left (matches_logarithm argument base))
  neighbours := by
    have arguments := acceptable_number argument
    have group : ('(' :: ((argument.text ++ ';' :: base.text) ++ [')'])).IsChain Fits := by
      apply isChain_group (isChain_of_inert (inert_arguments argument base))
      · rw [List.head?_append_of_ne_nil _ argument.isRun.ne_nil]
        exact arguments.row.begins
      · rw [List.getLast?_append_of_ne_nil _ (List.cons_ne_nil _ _),
          List.getLast?_cons_of_ne_nil base.isRun.ne_nil]
        exact (acceptable_number base).ends
    have name : Fits 'l' 'o' ∧ Fits 'o' 'g' ∧ Fits 'g' '(' := by
      refine ⟨?_, ?_, ?_⟩ <;> constructor <;> decide
    rcases name with ⟨l, o, g⟩
    exact .cons_cons l (.cons_cons o (.cons_cons g group))
  begins := ⟨'l', rfl, .inr rfl⟩
  ends := by
    have parts : logarithmText argument.text base.text =
        'l' :: 'o' :: 'g' :: '(' :: (argument.text ++ ';' :: base.text) ++ [')'] := rfl
    refine ⟨')', ?_, rfl⟩
    rw [parts, List.getLast?_concat]
    rfl
  enclosed := (enclosed_logarithmText argument.literal base.literal).anything

theorem acceptable_marker {digits : List (Fin 10)} (nonempty : digits ≠ []) :
    Acceptable BeginsTerm ('{' :: (digits.map digitChar ++ ['}'])) where
  tokens := by
    have opening : Matches (.literal ['{']) ['{'] := Pattern.matches_literal_iff.mpr rfl
    have closing : Matches (.literal ['}']) ['}'] := Pattern.matches_literal_iff.mpr rfl
    have belongs : Matches markerPattern _ :=
      .seq opening (.seq (matches_digits nonempty) closing)
    exact matches_many_of_token (.right (.right (.right belongs)))
  neighbours := by
    have inert : ∀ c ∈ digits.map digitChar, Inert c := fun _ member =>
      inert_of_isAsciiDigit (isAsciiDigit_of_mem_map member)
    apply List.isChain_cons.mpr
    constructor
    · intro c isHead
      have member := List.mem_of_mem_head? isHead
      have notGroup : beginsGroup c = false ∧ c ≠ ')' := by
        rcases List.mem_append.mp member with member | member
        · exact ⟨(inert c member).notGroup, (inert c member).notClosing⟩
        · rw [List.mem_singleton.mp member]
          decide
      constructor
      · rfl
      · simp [joinsOperands, notGroup.1]
      · simp [missesOperand, isOperator]
    · apply List.isChain_append.mpr
      refine ⟨isChain_of_inert inert, .singleton '}', ?_⟩
      intro last isLast closing isClosing
      cases isClosing
      exact fits_behind_inert (inert last (List.mem_of_mem_getLast? isLast)) rfl
  begins := ⟨'{', rfl, .inr rfl⟩
  ends := by
    refine ⟨'}', ?_, rfl⟩
    rw [← List.cons_append, List.getLast?_concat]
    rfl
  enclosed := by
    apply enclosed_of_forall
    intro c member
    rcases List.mem_cons.mp member with rfl | member
    · decide
    rcases List.mem_append.mp member with member | member
    · have inert := inert_of_isAsciiDigit (isAsciiDigit_of_mem_map member)
      exact ⟨inert.notOpening, inert.notClosing, trivial⟩
    · rw [List.mem_singleton.mp member]
      decide

/-! ## Rows and brackets -/

theorem matches_operator (operator : Operator) : Matches (.many tokenPattern) [operator.symbol] :=
  matches_symbol (by cases operator <;> decide)

theorem Acceptable.isChain_operator (term : Acceptable BeginsTerm text) (operator : Operator) :
    (operator.symbol :: text).IsChain Fits := by
  rcases term.begins with ⟨first, isHead, begins⟩
  apply List.isChain_cons.mpr
  refine ⟨?_, term.neighbours⟩
  intro c isFirst
  rw [isHead] at isFirst
  cases isFirst
  exact fits_behind_operator begins operator

/-- Two terms with an operator between them stand where one of them can stand. -/
theorem Acceptable.operator (before : Acceptable BeginsTerm left)
    (behind : Acceptable BeginsTerm right) (operator : Operator) :
    Acceptable BeginsTerm (left ++ operator.symbol :: right) where
  tokens := matches_many_append before.tokens
    (matches_many_append (matches_operator operator) behind.tokens)
  neighbours := by
    rcases before.ends with ⟨last, isLast, ends⟩
    apply List.isChain_append.mpr
    refine ⟨before.neighbours, behind.isChain_operator operator, ?_⟩
    intro c isEnd symbol isSymbol
    rw [isLast] at isEnd
    cases isEnd
    cases isSymbol
    exact fits_operator ends operator
  begins := by
    rcases before.begins with ⟨c, isHead, begins⟩
    refine ⟨c, ?_, begins⟩
    rw [List.head?_append, isHead]
    rfl
  ends := by
    rcases behind.ends with ⟨c, isLast, ends⟩
    refine ⟨c, ?_, ends⟩
    rw [List.getLast?_append_cons, List.getLast?_cons, isLast]
    rfl
  enclosed := by
    rcases operator.symbol_not_bracket with ⟨notOpening, notClosing⟩
    exact before.enclosed.append (.plain notOpening notClosing trivial behind.enclosed)

theorem acceptable_operands {rest : List (Operator × Term)}
    (items : ∀ item ∈ rest, Acceptable BeginsTerm item.2.text)
    (term : Acceptable BeginsTerm text) : Acceptable BeginsTerm (text ++ restText rest) := by
  induction rest generalizing text with
  | nil =>
    rw [restText, List.append_nil]
    exact term
  | cons item rest inductionHypothesis =>
    have behind := inductionHypothesis
      (fun other member => items other (List.mem_cons_of_mem _ member))
      (items item List.mem_cons_self)
    rw [restText]
    exact term.operator behind item.1

/-- A sign before a row of terms. -/
theorem Acceptable.signed (term : Acceptable BeginsTerm text) (sign : Option Bool) :
    Acceptable BeginsRow (signText sign ++ text) := by
  have behind : ∀ operator : Operator, operator.symbol ≠ '*' → operator.symbol ≠ '/' →
      Acceptable BeginsRow (operator.symbol :: text) := by
    intro operator notTimes notOver
    constructor
    case tokens => exact matches_many_append (matches_operator operator) term.tokens
    case neighbours => exact term.isChain_operator operator
    case begins => exact ⟨operator.symbol, rfl, notTimes, notOver, operator.symbol_not_bracket.2⟩
    case ends =>
      rcases term.ends with ⟨c, isLast, ends⟩
      refine ⟨c, ?_, ends⟩
      rw [List.getLast?_cons, isLast]
      rfl
    case enclosed =>
      rcases operator.symbol_not_bracket with ⟨notOpening, notClosing⟩
      exact .plain notOpening notClosing trivial term.enclosed
  rcases sign with _ | _ | _
  · exact term.row
  · exact behind .add (by decide) (by decide)
  · exact behind .subtract (by decide) (by decide)

/-- A row in brackets stands where a term can stand. -/
theorem Acceptable.group (row : Acceptable BeginsRow text) :
    Acceptable BeginsTerm ('(' :: (text ++ [')'])) where
  tokens := by
    have opening : Matches (.many tokenPattern) ['('] := matches_symbol (by decide)
    have closing : Matches (.many tokenPattern) [')'] := matches_symbol (by decide)
    exact matches_many_append opening (matches_many_append row.tokens closing)
  neighbours := isChain_group row.neighbours row.begins row.ends
  begins := ⟨'(', rfl, .inr rfl⟩
  ends := by
    refine ⟨')', ?_, rfl⟩
    rw [← List.cons_append, List.getLast?_concat]
    rfl
  enclosed := row.enclosed.wrap

/-! ## Trees -/

mutual

/-- The text of a term can stand in an accepted text. -/
theorem Term.acceptable (term : Term) : Acceptable BeginsTerm term.text := by
  cases term with
  | number numeral =>
    rw [Term.text]
    exact acceptable_number numeral
  | power base exponent =>
    rw [Term.text]
    exact acceptable_numberPower base exponent
  | logarithm argument base =>
    have acceptable := acceptable_logarithm argument base
    rw [logarithmText] at acceptable
    rw [Term.text]
    simpa using acceptable
  | marker first others =>
    rw [Term.text]
    exact acceptable_marker (List.cons_ne_nil first others)
  | group sign first rest =>
    have row := (acceptable_operands (restAcceptable rest) first.acceptable).signed sign
    rw [← List.append_assoc] at row
    rw [Term.text]
    exact row.group

theorem restAcceptable (rest : List (Operator × Term)) :
    ∀ item ∈ rest, Acceptable BeginsTerm item.2.text := by
  cases rest with
  | nil => exact fun _ member => nomatch member
  | cons item rest =>
    rcases item with ⟨operator, term⟩
    exact List.forall_mem_cons.mpr ⟨term.acceptable, restAcceptable rest⟩

end

/-! ## Acceptance -/

theorem bracketFault?_opening (offset opened : Nat) (closedMarker : Bool) (rest : List Char) :
    bracketFault? offset opened closedMarker ('(' :: rest) =
      bracketFault? (offset + 1) (opened + 1) false rest := by
  simp [bracketFault?, Char.utf8Size]

theorem bracketFault?_closing (offset opened : Nat) (closedMarker : Bool) (rest : List Char) :
    bracketFault? offset (opened + 1) closedMarker (')' :: rest) =
      bracketFault? (offset + 1) opened false rest := by
  simp [bracketFault?, Char.utf8Size]

/-- Behind texts whose brackets belong together a fault can only come from what follows. A marker
does not follow another one, because their brackets do not fit. -/
theorem Enclosed.bracketFault?_append {allowed : Char → Prop} (enclosed : Enclosed allowed text)
    {offset opened : Nat} {closedMarker : Bool} (neighbours : (text ++ after).IsChain Fits)
    (apart : closedMarker = true → ∀ c ∈ (text ++ after).head?, c ≠ '{')
    (behind : ∀ offset closedMarker, (closedMarker = true → ∀ c ∈ after.head?, c ≠ '{') →
      bracketFault? offset opened closedMarker after = none) :
    bracketFault? offset opened closedMarker (text ++ after) = none := by
  induction enclosed generalizing offset opened closedMarker after with
  | nil => exact behind offset closedMarker apart
  | @plain _ c rest notOpening notClosing _ _ inductionHypothesis =>
    rcases List.isChain_cons.mp neighbours with ⟨fits, later⟩
    rw [List.cons_append, bracketFault?, if_neg fun both => notClosing both.1,
      if_neg fun both => apart both.2 c rfl both.1]
    simp only [if_neg notOpening, if_neg notClosing]
    apply inductionHypothesis later _ behind
    rintro isMarker next isHead rfl
    obtain rfl := beq_iff_eq.mp isMarker
    have notJoined := (fits '{' isHead).notJoined
    simp [joinsOperands, endsOperand, beginsGroup] at notJoined
  | @group _ inner rest _ _ innerHypothesis restHypothesis =>
    rw [List.cons_append, List.append_assoc, List.cons_append] at neighbours ⊢
    rcases List.isChain_cons.mp neighbours with ⟨-, later⟩
    rcases List.isChain_append.mp later with ⟨-, closing, -⟩
    rw [bracketFault?_opening]
    apply innerHypothesis later
    · rintro ⟨⟩
    · intro offset closedMarker _
      rw [bracketFault?_closing]
      apply restHypothesis (List.isChain_cons.mp closing).2 _ behind
      rintro ⟨⟩

/-- A row that can stand in an accepted text is one. -/
theorem Acceptable.accepted (row : Acceptable BeginsRow text) : Accepted text where
  nonempty := by
    rcases row.begins with ⟨c, isHead, -⟩
    rintro rfl
    cases isHead
  tokens := by
    rcases row.begins with ⟨c, isHead, -⟩
    rcases List.head?_eq_some_iff.mp isHead with ⟨rest, rfl⟩
    rcases matches_many_cons_iff.mp row.tokens with ⟨first, others, rfl, isToken, areTokens⟩
    exact .seq isToken areTokens
  neighbours := row.neighbours
  brackets := by
    have neighbours : (text ++ []).IsChain Fits := by
      rw [List.append_nil]
      exact row.neighbours
    have noFault : bracketFault? 0 0 false (text ++ []) = none := by
      apply row.enclosed.bracketFault?_append neighbours
      · rintro ⟨⟩
      · intro offset closedMarker _
        rw [bracketFault?, if_pos rfl]
    rwa [List.append_nil] at noFault
  begins := by
    rcases row.begins with ⟨first, isHead, notTimes, notOver, -⟩
    intro c isFirst
    rw [isHead] at isFirst
    cases isFirst
    exact ⟨notTimes, notOver⟩
  ends := by
    rcases row.ends with ⟨last, isLast, ends⟩
    intro c isEnd
    rw [isLast] at isEnd
    cases isEnd
    exact (plain_of_endsOperand ends).1

/-- The text of a tree is accepted. -/
theorem Chain.accepted (chain : Chain) : Accepted chain.text := by
  have row := (acceptable_operands (restAcceptable chain.rest) chain.first.acceptable).signed
    chain.sign
  rw [← List.append_assoc] at row
  exact row.accepted

end Formulary.Formula
