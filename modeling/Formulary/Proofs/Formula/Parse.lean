import Formulary.Proofs.Formula.Value

/-!
# Texts that are taken apart down to numbers

A text parses if it is a number, or if `shape?` takes it apart into texts that parse. Evaluation
never reports such a text as malformed, at any number of levels, and a text that has a value parses.
Which rows, texts in brackets and powers parse is seen from their operands.
-/

namespace Formulary.Formula

open Text

/-! ## Parts -/

/-- The texts that a text of this shape is made of, if it is made of any. -/
def Shape.parts? : Shape → Option (List (List Char))
  | .number _ => some []
  | .wrapped inner => some [inner]
  | .binary _ left right => some [left, right]
  | .power base exponent => some [base, exponent]
  | .signed _ rest => some [rest]
  | .logarithm argument base => some [argument, base]
  | .malformed => none

/-- A text is taken apart down to numbers. -/
inductive Parses (policy : SplitPolicy) : List Char → Prop where
  | of_parts {text : List Char} {shape : Shape} {parts : List (List Char)} :
      shape? policy text = some shape → shape.parts? = some parts →
        (∀ part ∈ parts, Parses policy part) → Parses policy text

variable {policy : SplitPolicy} {text inner left right : List Char} {shape : Shape}
  {parts : List (List Char)}

/-- A text parses exactly if its parts do. -/
theorem parses_iff (shape_eq : shape? policy text = some shape)
    (parts_eq : shape.parts? = some parts) :
    Parses policy text ↔ ∀ part ∈ parts, Parses policy part := by
  constructor
  · rintro ⟨otherShape_eq, otherParts_eq, parse⟩
    cases shape_eq.symm.trans otherShape_eq
    cases parts_eq.symm.trans otherParts_eq
    exact parse
  · exact .of_parts shape_eq parts_eq

/-! ## Evaluation of what parses -/

/-- The outcome of an operation on values: a value, or a division by zero. -/
inductive Computed : Except Fault Float → Prop where
  | value (value : Float) : Computed (.ok value)
  | quotient (text : List Char) : Computed (.error (.divisionByZero text))

theorem Operator.computed (operator : Operator) (text : List Char) (left right : Float) :
    Computed (operator.apply text left right) := by
  cases operator with
  | divide =>
    rw [Operator.apply]
    split
    · exact .quotient text
    · exact .value _
  | _ => exact .value _

/-- The outcome for a text comes from its parts: it is the fault of one of them, or all have values
and it is computed from these. -/
inductive Follows (part : List Char → Except Fault Float) (parts : List (List Char)) :
    Except Fault Float → Prop where
  | fault {inner : List Char} {fault : Fault} :
      inner ∈ parts → part inner = .error fault → Follows part parts (.error fault)
  | computed {outcome : Except Fault Float} :
      (∀ inner ∈ parts, ∃ value, part inner = .ok value) → Computed outcome →
        Follows part parts outcome

section

variable (part : List Char → Except Fault Float) {value : Float}

theorem follows_of_part {next : Float → Except Fault Float}
    (computed : ∀ value, Computed (next value)) : Follows part [inner] (part inner >>= next) := by
  cases found : part inner with
  | error fault => exact .fault (List.mem_singleton_self inner) found
  | ok value => exact .computed (by simp [found]) (computed value)

theorem follows_of_parts {next : Float → Float → Except Fault Float}
    (computed : ∀ leftValue rightValue, Computed (next leftValue rightValue)) :
    Follows part [left, right]
      (part left >>= fun leftValue => part right >>= fun rightValue =>
        next leftValue rightValue) := by
  cases foundLeft : part left with
  | error fault => exact .fault List.mem_cons_self foundLeft
  | ok leftValue =>
    cases foundRight : part right with
    | error fault => exact .fault (List.mem_cons_of_mem _ List.mem_cons_self) foundRight
    | ok rightValue =>
      exact .computed (by simp [foundLeft, foundRight]) (computed leftValue rightValue)

/-- Evaluation of a text that has parts goes by its parts. -/
theorem evaluateShape_follows (shape_eq : shape? policy text = some shape)
    (parts_eq : shape.parts? = some parts) :
    Follows part parts (evaluateShape policy part text) := by
  rw [evaluateShape, shape_eq]
  cases shape with
  | malformed => cases parts_eq
  | number number =>
    cases parts_eq
    exact .computed (by simp) (.value number)
  | wrapped inner =>
    cases parts_eq
    have follows : Follows part [inner] (part inner >>= pure) :=
      follows_of_part part Computed.value
    rwa [bind_pure] at follows
  | signed negative rest =>
    cases parts_eq
    exact follows_of_part part fun _ => .value _
  | binary operator left right =>
    cases parts_eq
    exact follows_of_parts part (operator.computed text)
  | power base exponent =>
    cases parts_eq
    exact follows_of_parts part fun _ _ => .value _
  | logarithm argument base =>
    cases parts_eq
    exact follows_of_parts part fun _ _ => .value _

/-- A text that is not made of any parts has no value. -/
theorem exists_parts_of_evaluateShape (evaluated : evaluateShape policy part text = .ok value) :
    ∃ shape parts, shape? policy text = some shape ∧ shape.parts? = some parts := by
  rw [evaluateShape] at evaluated
  split at evaluated
  · cases evaluated
  · cases evaluated
  all_goals exact ⟨_, _, ‹_›, rfl⟩

/-- A fault of evaluation names the text or is a division by zero, or it is the fault of a part. -/
theorem evaluateShape_eq_error {fault : Fault}
    (failed : evaluateShape policy part text = .error fault) :
    (fault = .uncuttable text ∨ fault = .malformed text ∨
        ∃ quotient, fault = .divisionByZero quotient) ∨
      ∃ shape parts, shape? policy text = some shape ∧ shape.parts? = some parts ∧
        ∃ inner ∈ parts, part inner = .error fault := by
  cases shape_eq : shape? policy text with
  | none =>
    rw [evaluateShape, shape_eq] at failed
    cases failed
    exact .inl (.inl rfl)
  | some shape =>
    cases parts_eq : shape.parts? with
    | none =>
      cases shape with
      | malformed =>
        rw [evaluateShape, shape_eq] at failed
        cases failed
        exact .inl (.inr (.inl rfl))
      | _ => cases parts_eq
    | some parts =>
      have follows := evaluateShape_follows part shape_eq parts_eq
      rw [failed] at follows
      cases follows with
      | fault member innerFailed => exact .inr ⟨_, _, rfl, parts_eq, _, member, innerFailed⟩
      | computed _ computed =>
        cases computed with
        | quotient quotient => exact .inl (.inr (.inr ⟨quotient, rfl⟩))

end

variable {limit levels : Nat} {value : Float} {fault : Fault}

/-- Evaluation of a text that parses fails by a division by zero or at the limit on the levels. -/
theorem Parses.fault_cases (parses : Parses policy text)
    (failed : evaluateWithin policy limit levels text = .error fault) :
    (∃ quotient, fault = .divisionByZero quotient) ∨ fault = .tooDeep limit := by
  induction parses generalizing levels fault with
  | of_parts shape_eq parts_eq _ inductionHypothesis =>
    cases levels with
    | zero =>
      cases failed
      exact .inr rfl
    | succ levels =>
      rw [evaluateWithin] at failed
      have follows := evaluateShape_follows (evaluateWithin policy limit levels) shape_eq parts_eq
      rw [failed] at follows
      cases follows with
      | fault member innerFailed => exact inductionHypothesis _ member innerFailed
      | computed _ computed =>
        cases computed with
        | quotient quotient => exact .inl ⟨quotient, rfl⟩

/-- A text that has a value parses. -/
theorem parses_of_evaluateWithin (evaluated : evaluateWithin policy limit levels text = .ok value) :
    Parses policy text := by
  induction levels generalizing text value with
  | zero => cases evaluated
  | succ levels inductionHypothesis =>
    rw [evaluateWithin] at evaluated
    rcases exists_parts_of_evaluateShape _ evaluated with ⟨shape, parts, shape_eq, parts_eq⟩
    have follows := evaluateShape_follows (evaluateWithin policy limit levels) shape_eq parts_eq
    rw [evaluated] at follows
    cases follows with
    | computed haveValues _ =>
      refine .of_parts shape_eq parts_eq fun inner member => ?_
      rcases haveValues inner member with ⟨innerValue, innerEvaluated⟩
      exact inductionHypothesis innerEvaluated

theorem Settles.parses (settles : Settles policy text (some value)) : Parses policy text :=
  parses_of_evaluateWithin (settles 0 (byteLength text + 1) (Nat.lt_succ_self _))

/-! ## Characters of what parses -/

theorem eq_cons_of_splitSign (text : List Char) :
    text = (Number.splitSign text).2 ∨
      ∃ c, c.utf8Size = 1 ∧ text = c :: (Number.splitSign text).2 := by
  rw [Number.splitSign.eq_def]
  split
  · exact .inr ⟨'-', by decide, rfl⟩
  · exact .inr ⟨'+', by decide, rfl⟩
  · exact .inl rfl

theorem utf8Size_of_isAsciiDigit {c : Char} (digit : isAsciiDigit c = true) : c.utf8Size = 1 := by
  simp only [isAsciiDigit, Bool.and_eq_true, decide_eq_true_eq] at digit
  exact Char.utf8Size_eq_one_iff.mpr (UInt32.le_trans digit.2 (by decide))

/-- Every character of the text has one byte. -/
def SingleBytes (text : List Char) : Prop :=
  ∀ c ∈ text, c.utf8Size = 1

theorem singleBytes_of_byteLength_le (short : byteLength text ≤ 1) : SingleBytes text := by
  intro c member
  have := c.utf8Size_pos
  have := utf8Size_le_byteLength member
  omega

/-- A number is written in characters of one byte. -/
theorem singleBytes_of_literal? {number : Float} (reads : literal? text = some number) :
    SingleBytes text := by
  simp only [literal?] at reads
  split at reads
  · rename_i body
    have inBody : SingleBytes (Number.splitSign text).2 := by
      intro c member
      rcases body with ⟨-, numeral⟩ | word | word
      · rcases Bool.or_eq_true_iff.mp (List.all_eq_true.mp numeral c member) with digit | point
        · exact utf8Size_of_isAsciiDigit digit
        · rw [beq_iff_eq.mp point]
          decide
      · rw [word] at member
        simp only [List.mem_cons, List.not_mem_nil, or_false] at member
        rcases member with rfl | rfl | rfl <;> decide
      · rw [word] at member
        simp only [List.mem_cons, List.not_mem_nil, or_false] at member
        rcases member with rfl | rfl | rfl <;> decide
    rcases eq_cons_of_splitSign text with same | ⟨sign, small, same⟩
    · rw [same]
      exact inBody
    · rw [same]
      intro c member
      rcases List.mem_cons.mp member with rfl | member
      · exact small
      · exact inBody c member
  · cases reads

/-- Every character of more than one byte in the text is in one of the parts. -/
def Covers (parts : List (List Char)) (text : List Char) : Prop :=
  ∀ c ∈ text, c.utf8Size ≠ 1 → ∃ part ∈ parts, c ∈ part

theorem covers_of_mem {part : List Char} (member : part ∈ parts) : Covers parts part :=
  fun _ inPart _ => ⟨part, member, inPart⟩

theorem SingleBytes.covers (single : SingleBytes text) : Covers parts text :=
  fun c member wide => absurd (single c member) wide

theorem Covers.append (before : Covers parts left) (after : Covers parts right) :
    Covers parts (left ++ right) := by
  intro c member wide
  rcases List.mem_append.mp member with member | member
  · exact before c member wide
  · exact after c member wide

/-- How a text is made of its parts. Beside them it has characters of one byte, some of them before
a single part or between two. -/
inductive ComposedOf : List (List Char) → List Char → Prop where
  | number {text : List Char} : SingleBytes text → ComposedOf [] text
  | one {before part after : List Char} : before ≠ [] → SingleBytes before → SingleBytes after →
      ComposedOf [part] (before ++ (part ++ after))
  | two {before left between right after : List Char} : between ≠ [] → SingleBytes before →
      SingleBytes between → SingleBytes after →
        ComposedOf [left, right] (before ++ (left ++ (between ++ (right ++ after))))

/-- What a text has beside its parts are characters of one byte. -/
theorem ComposedOf.covers (composed : ComposedOf parts text) : Covers parts text := by
  cases composed with
  | number single => exact single.covers
  | one _ before after => exact before.covers.append ((covers_of_mem (by simp)).append after.covers)
  | two _ before between after =>
    exact before.covers.append ((covers_of_mem (by simp)).append
      (between.covers.append ((covers_of_mem (by simp)).append after.covers)))

/-- The parts of a text are shorter than the text. -/
theorem ComposedOf.shorter (composed : ComposedOf parts text) :
    ∀ part ∈ parts, byteLength part < byteLength text := by
  cases composed with
  | number => simp
  | one before =>
    have := Nat.pos_of_ne_zero (mt byteLength_eq_zero before)
    simp only [List.mem_singleton, forall_eq, byteLength_append]
    omega
  | two between =>
    have := Nat.pos_of_ne_zero (mt byteLength_eq_zero between)
    simp only [List.mem_cons, List.not_mem_nil, or_false, forall_eq_or_imp, forall_eq,
      byteLength_append]
    omega

/-- Where a text is cut, one byte is left out between the two parts. -/
theorem exists_of_cutAt? {offset : Nat} (cut : cutAt? text offset = some (left, right)) :
    ∃ between, text = left ++ (between ++ right) ∧ byteLength between = 1 := by
  rcases Option.bind_eq_some_iff.mp cut with ⟨leftPart, leftCut, cut⟩
  rcases Option.bind_eq_some_iff.mp cut with ⟨rightPart, rightCut, same⟩
  cases same
  rcases exists_of_slice? leftCut with ⟨nothing, behind, text_eq, nothingLength, leftLength⟩
  obtain rfl := byteLength_eq_zero nothingLength
  rcases exists_of_slice? rightCut with ⟨before, rest, otherText_eq, beforeLength, rightLength⟩
  have restLength : byteLength rest = 0 := by
    have whole := congrArg byteLength otherText_eq
    simp only [byteLength_append] at whole
    omega
  obtain rfl := byteLength_eq_zero restLength
  rw [List.nil_append] at text_eq
  rw [List.append_nil] at otherText_eq
  rw [byteLength_nil, Nat.zero_add] at leftLength
  rcases List.append_eq_append_iff.mp (text_eq.symm.trans otherText_eq) with
    ⟨between, rfl, behind_eq⟩ | ⟨between, rfl, -⟩
  · refine ⟨between, by rw [text_eq, behind_eq], ?_⟩
    rw [byteLength_append] at beforeLength
    omega
  · rw [byteLength_append] at leftLength
    omega

theorem le_of_outerLogarithmFrom {offset depth place : Nat}
    (found : outerLogarithmFrom offset depth text = some place) : offset ≤ place := by
  induction text generalizing offset depth with
  | nil => cases found
  | cons c rest inductionHypothesis =>
    rw [outerLogarithmFrom] at found
    split at found
    · exact Nat.le_of_succ_le (inductionHypothesis found)
    split at found
    · exact Nat.le_of_succ_le (inductionHypothesis found)
    split at found
    · cases found
      exact Nat.le_refl _
    · exact Nat.le_trans (Nat.le_add_right _ _) (inductionHypothesis found)

/-- A call that is found at the very beginning begins the text. -/
theorem exists_of_outerLogarithm? (found : outerLogarithm? text = some 0) :
    ∃ rest, text = ['l', 'o', 'g', '('] ++ rest := by
  cases text with
  | nil => cases found
  | cons c rest =>
    rw [outerLogarithm?, outerLogarithmFrom] at found
    split at found
    · exact absurd (le_of_outerLogarithmFrom found) (by omega)
    split at found
    · exact absurd (le_of_outerLogarithmFrom found) (by omega)
    split at found
    · rename_i isCall
      rcases isCall with ⟨rfl, -, isName⟩
      rcases List.isPrefixOf_iff_prefix.mp isName with ⟨after, rfl⟩
      exact ⟨after, rfl⟩
    · have := c.utf8Size_pos
      exact absurd (le_of_outerLogarithmFrom found) (by omega)

theorem eq_of_splitArguments? (split : splitArguments? text = some (left, right)) :
    text = left ++ ';' :: right := by
  have whole := List.takeWhile_append_dropWhile (p := fun c => decide (c ≠ ';')) (l := text)
  rw [splitArguments?] at split
  split at split
  · rename_i c after dropped
    cases split
    have isSemicolon : c = ';' := by
      have notHead := List.head?_dropWhile_not (fun c => decide (c ≠ ';')) text
      rw [dropped] at notHead
      simpa using notHead
    rw [dropped, isSemicolon] at whole
    exact whole.symm
  · cases split

/-- A text is cut at a call only if it is the name of the logarithm, two arguments with a semicolon
between them, and a bracket of one byte. -/
theorem cutLogarithm_cases {offset : Nat} {pairs : List (Nat × Nat)}
    (found : outerLogarithm? text = some offset)
    (cut : cutLogarithm text offset pairs = some shape) :
    shape = .malformed ∨ ∃ argument base after, shape = .logarithm argument base ∧
      text = ['l', 'o', 'g', '('] ++ ((argument ++ ';' :: base) ++ after) ∧
        byteLength after ≤ 1 := by
  simp only [cutLogarithm] at cut
  split at cut
  · exact .inl (Option.some.inj cut).symm
  split at cut
  · rename_i whole
    rcases whole with ⟨rfl, rfl⟩
    rcases Option.map_eq_some_iff.mp cut with ⟨arguments, sliced, split⟩
    split at split
    · rename_i argument base isSplit
      rcases exists_of_slice? sliced with ⟨before, after, text_eq, beforeLength, argumentsLength⟩
      rcases exists_of_outerLogarithm? found with ⟨rest, isCall⟩
      have before_eq : before = ['l', 'o', 'g', '('] := by
        have taken := takeBytes?_append before (arguments ++ after)
        rw [← text_eq, isCall, beforeLength] at taken
        exact Option.some.inj (taken.symm.trans (takeBytes?_append ['l', 'o', 'g', '('] rest))
      refine .inr ⟨argument, base, after, split.symm, ?_, ?_⟩
      · rw [text_eq, before_eq, eq_of_splitArguments? isSplit]
      · have := congrArg byteLength text_eq
        simp only [byteLength_append] at this
        omega
    · exact .inl split.symm
  · exact .inl (Option.some.inj cut).symm

theorem composedOf_wrapped (cut : slice? text 1 (byteLength text - 1) = some inner) :
    ComposedOf [inner] text := by
  rcases exists_of_slice? cut with ⟨before, after, text_eq, beforeLength, innerLength⟩
  have afterLength : byteLength after ≤ 1 := by
    have := congrArg byteLength text_eq
    simp only [byteLength_append] at this
    omega
  have nonempty : before ≠ [] := by
    rintro rfl
    cases beforeLength
  rw [text_eq]
  exact .one nonempty (singleBytes_of_byteLength_le (Nat.le_of_eq beforeLength))
    (singleBytes_of_byteLength_le afterLength)

theorem composedOf_signed {c : Char} (small : c.utf8Size = 1) : ComposedOf [right] (c :: right) := by
  have composed : ComposedOf [right] ([c] ++ (right ++ [])) :=
    .one (List.cons_ne_nil c []) (singleBytes_of_byteLength_le (by simp [small])) nofun
  rwa [List.append_nil] at composed

theorem composedOf_cutAt? {offset : Nat} (cut : cutAt? text offset = some (left, right)) :
    ComposedOf [left, right] text := by
  rcases exists_of_cutAt? cut with ⟨between, rfl, betweenLength⟩
  have nonempty : between ≠ [] := by
    rintro rfl
    cases betweenLength
  have composed : ComposedOf [left, right] ([] ++ (left ++ (between ++ (right ++ [])))) :=
    .two nonempty nofun (singleBytes_of_byteLength_le (Nat.le_of_eq betweenLength)) nofun
  rwa [List.append_nil] at composed

theorem composedOf_split? (split_eq : split? policy text = some (some shape))
    (parts_eq : shape.parts? = some parts) : ComposedOf parts text := by
  rw [split?] at split_eq
  split at split_eq
  · rcases Option.map_eq_some_iff.mp (Option.some.inj split_eq) with ⟨⟨left, right⟩, cut, rfl⟩
    cases parts_eq
    exact composedOf_cutAt? cut
  · rcases Option.map_eq_some_iff.mp split_eq with ⟨offset, -, atOffset⟩
    rcases Option.map_eq_some_iff.mp atOffset with ⟨⟨base, exponent⟩, cut, rfl⟩
    cases parts_eq
    exact composedOf_cutAt? cut

theorem composedOf_cutLogarithm {offset : Nat} {pairs : List (Nat × Nat)}
    (found : outerLogarithm? text = some offset)
    (cut : cutLogarithm text offset pairs = some shape) (parts_eq : shape.parts? = some parts) :
    ComposedOf parts text := by
  rcases cutLogarithm_cases found cut with rfl | ⟨argument, base, after, rfl, rfl, afterLength⟩
  · cases parts_eq
  · cases parts_eq
    have name : SingleBytes ['l', 'o', 'g', '('] := by simp [SingleBytes, Char.utf8Size]
    have composed : ComposedOf [argument, base]
        (['l', 'o', 'g', '('] ++ (argument ++ ([';'] ++ (base ++ after)))) :=
      .two (List.cons_ne_nil ';' []) name (singleBytes_of_byteLength_le (by decide))
        (singleBytes_of_byteLength_le afterLength)
    rwa [← List.append_assoc [';'], ← List.append_assoc argument] at composed

/-- A text is made of the parts that it is taken apart into. -/
theorem composedOf_shape? (shape_eq : shape? policy text = some shape)
    (parts_eq : shape.parts? = some parts) : ComposedOf parts text := by
  rw [shape?] at shape_eq
  split at shape_eq
  · cases shape_eq
    cases parts_eq
  split at shape_eq
  · rename_i number reads
    cases shape_eq
    cases parts_eq
    exact .number (singleBytes_of_literal? reads)
  split at shape_eq
  · cases shape_eq
    cases parts_eq
  rename_i pairs _
  split at shape_eq
  · rcases Option.map_eq_some_iff.mp shape_eq with ⟨inner, cut, rfl⟩
    cases parts_eq
    exact composedOf_wrapped cut
  split at shape_eq
  · rename_i cut split_eq
    exact composedOf_split? (shape_eq ▸ split_eq) parts_eq
  split at shape_eq
  · cases shape_eq
    cases parts_eq
    exact composedOf_signed (by decide)
  · cases shape_eq
    cases parts_eq
    exact composedOf_signed (by decide)
  split at shape_eq
  · rename_i offset found
    exact composedOf_cutLogarithm found shape_eq parts_eq
  · cases shape_eq
    cases parts_eq

/-- A text that parses has no character of more than one byte. -/
theorem Parses.utf8Size_eq (parses : Parses policy text) : SingleBytes text := by
  induction parses with
  | of_parts shape_eq parts_eq _ inductionHypothesis =>
    intro c member
    by_contra wide
    rcases (composedOf_shape? shape_eq parts_eq).covers c member wide with ⟨part, isPart, inPart⟩
    exact wide (inductionHypothesis part isPart c inPart)

/-! ## Rows, brackets and powers -/

/-- A row parses exactly if its operands do. -/
theorem parses_rowText_iff {sign : Option Bool} {first : List Char} {rest : Operands (List Char)}
    (firstText : OperandText first) (texts : ∀ item ∈ rest, OperandText item.2) :
    Parses policy (rowText sign first rest) ↔
      Parses policy (signText sign ++ first) ∧ ∀ item ∈ rest, Parses policy item.2 := by
  -- The induction is on the number of operators: a cut leaves fewer of them on either side.
  induction count : rest.length using Nat.strongRecOn generalizing sign first rest with
  | _ count inductionHypothesis =>
    by_cases single : rest = []
    · subst single
      simp
    rcases exists_isCut policy single with ⟨before, operator, next, after, rfl, isCut⟩
    have shape_eq := shape?_rowText sign firstText texts isCut
    have leftPart : Parses policy (rowText sign first before) ↔ _ :=
      inductionHypothesis before.length (by simp [← count]) firstText
        (fun item member => texts item (by simp [member])) rfl
    have nextText : OperandText next := texts (operator, next) (by simp)
    have rightPart : Parses policy (rowText none next after) ↔ _ :=
      inductionHypothesis after.length (by simp [← count]; omega) nextText
        (fun item member => texts item (by simp [member])) rfl
    have nextAlone : signText none ++ next = next := List.nil_append next
    rw [parses_iff shape_eq rfl]
    simp only [List.mem_cons, List.not_mem_nil, or_false, forall_eq, leftPart, rightPart, nextAlone,
      List.mem_append, or_imp, forall_and]
    exact ⟨fun ⟨⟨isFirst, inBefore⟩, isNext, inAfter⟩ => ⟨isFirst, inBefore, isNext, inAfter⟩,
      fun ⟨isFirst, inBefore, isNext, inAfter⟩ => ⟨⟨isFirst, inBefore⟩, isNext, inAfter⟩⟩

/-- A text in brackets parses exactly if the text does, also behind a sign. -/
theorem parses_group_iff (enclosed : Enclosed (fun _ => True) inner) (sign : Option Bool) :
    Parses policy (signText sign ++ '(' :: (inner ++ [')'])) ↔ Parses policy inner := by
  have unsigned : Parses policy ('(' :: (inner ++ [')'])) ↔ Parses policy inner := by
    rw [parses_iff (shape?_group enclosed) rfl]
    simp
  cases sign with
  | none => exact unsigned
  | some negative =>
    have signed : shape? policy (signText (some negative) ++ '(' :: (inner ++ [')'])) = _ :=
      shape?_sign enclosed.wrap (c := ')') (by simp) (by decide) negative
    rw [parses_iff signed rfl, ← unsigned]
    simp

/-- A power parses exactly if its base with the sign and its exponent do. -/
theorem parses_power_iff (leftText : OperandText left) (noPower : Enclosed (· ≠ '^') left)
    (rightText : OperandText right) (sign : Option Bool) :
    Parses policy (signText sign ++ (left ++ '^' :: right)) ↔
      Parses policy (signText sign ++ left) ∧ Parses policy right := by
  rw [parses_iff (shape?_power leftText noPower rightText sign) rfl]
  simp

end Formulary.Formula
