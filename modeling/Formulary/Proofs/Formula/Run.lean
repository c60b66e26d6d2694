import Formulary.Proofs.Formula.Parse

/-!
# Runs of digits and points

Numbers that follow each other without anything between them make a run of digits and points, and a
run can have more points than a number. This file says which runs, and which powers of runs, are
taken apart down to numbers: those whose runs are numbers.
-/

namespace Formulary.Formula

open Text

/-! ## Runs and numerals -/

/-- A number as it is written. -/
def IsNumeral (text : List Char) : Prop :=
  ∃ numeral : Numeral, text = numeral.text

/-- Digits and points, the first and the last of them a digit. -/
structure IsRun (run : List Char) : Prop where
  characters : ∀ c ∈ run, isAsciiDigit c = true ∨ c = '.'
  begins : ∃ c ∈ run.head?, isAsciiDigit c = true
  ends : ∃ c ∈ run.getLast?, isAsciiDigit c = true

variable {policy : SplitPolicy} {text run next whole after : List Char}

theorem IsRun.ne_nil (isRun : IsRun run) : run ≠ [] := by
  rintro rfl
  rcases isRun.begins with ⟨c, member, -⟩
  cases member

theorem IsRun.append (first : IsRun run) (second : IsRun next) : IsRun (run ++ next) where
  characters c member := by
    rcases List.mem_append.mp member with member | member
    · exact first.characters c member
    · exact second.characters c member
  begins := by
    rw [List.head?_append_of_ne_nil _ first.ne_nil]
    exact first.begins
  ends := by
    rw [List.getLast?_append_of_ne_nil _ second.ne_nil]
    exact second.ends

theorem exists_digitChar_eq {c : Char} (digit : isAsciiDigit c = true) :
    ∃ value, c = digitChar value := by
  have inRange : ∀ value : Fin 10, Char.ofNat (48 + value) = digitChar value := by decide
  simp only [isAsciiDigit, Bool.and_eq_true, decide_eq_true_eq] at digit
  have atLeast : 48 ≤ c.toNat := digit.1
  have atMost : c.toNat ≤ 57 := digit.2
  refine ⟨⟨c.toNat - 48, by omega⟩, ?_⟩
  rw [← inRange, Nat.add_sub_cancel' atLeast, Char.ofNat_toNat]

theorem exists_map_digitChar {digits : List Char} (ascii : ∀ c ∈ digits, isAsciiDigit c = true) :
    ∃ values : List (Fin 10), digits = values.map digitChar := by
  induction digits with
  | nil => exact ⟨[], rfl⟩
  | cons c rest inductionHypothesis =>
    rcases exists_digitChar_eq (ascii c List.mem_cons_self) with ⟨value, rfl⟩
    rcases inductionHypothesis fun other member => ascii other (List.mem_cons_of_mem _ member) with
      ⟨values, rfl⟩
    exact ⟨value :: values, rfl⟩

theorem isNumeral_pointText {fraction : List Char} (nonempty : whole ≠ [])
    (digits : ∀ c ∈ whole, isAsciiDigit c = true)
    (others : ∀ c ∈ fraction, isAsciiDigit c = true) :
    IsNumeral (Number.pointText whole fraction) := by
  rcases exists_map_digitChar digits with ⟨_ | ⟨first, values⟩, rfl⟩
  · exact absurd rfl nonempty
  rcases exists_map_digitChar others with ⟨fractionValues, rfl⟩
  exact ⟨⟨first, values, fractionValues⟩, by simp [Numeral.text, Number.pointText]⟩

theorem isNumeral_of_digits (nonempty : whole ≠ []) (digits : ∀ c ∈ whole, isAsciiDigit c = true) :
    IsNumeral whole := by
  have isNumeral : IsNumeral (Number.pointText whole []) :=
    isNumeral_pointText nonempty digits (by simp)
  rwa [Number.pointText, if_pos rfl] at isNumeral

/-- A run is made of digits alone, or of digits, a point and more digits and points. -/
theorem IsRun.exists_whole (isRun : IsRun run) :
    ∃ whole, whole ≠ [] ∧ (∀ c ∈ whole, isAsciiDigit c = true) ∧
      (run = whole ∨ ∃ after, after ≠ [] ∧ run = whole ++ '.' :: after ∧
        ∀ c ∈ after, isAsciiDigit c = true ∨ c = '.') := by
  have split := List.takeWhile_append_dropWhile (p := isAsciiDigit) (l := run)
  have digits : ∀ c ∈ run.takeWhile isAsciiDigit, isAsciiDigit c = true :=
    List.all_eq_true.mp List.all_takeWhile
  have nonempty : run.takeWhile isAsciiDigit ≠ [] := by
    rcases isRun.begins with ⟨c, isHead, digit⟩
    rcases List.head?_eq_some_iff.mp isHead with ⟨rest, rfl⟩
    simp [digit]
  refine ⟨run.takeWhile isAsciiDigit, nonempty, digits, ?_⟩
  cases dropped : run.dropWhile isAsciiDigit with
  | nil =>
    rw [dropped, List.append_nil] at split
    exact .inl split.symm
  | cons c after =>
    have notDigit : isAsciiDigit c = false := by
      have notHead := List.head?_dropWhile_not isAsciiDigit run
      rw [dropped] at notHead
      simpa using notHead
    rw [dropped] at split
    have inRun : ∀ other ∈ c :: after, isAsciiDigit other = true ∨ other = '.' :=
      fun other member => isRun.characters other (split ▸ List.mem_append_right _ member)
    obtain rfl : c = '.' := by simpa [notDigit] using inRun c List.mem_cons_self
    refine .inr ⟨after, ?_, split.symm, fun other member =>
      inRun other (List.mem_cons_of_mem _ member)⟩
    rintro rfl
    rcases isRun.ends with ⟨last, isLast, digit⟩
    rw [← split, List.getLast?_concat] at isLast
    cases isLast
    cases digit

/-- Between two points there is something that is no digit. -/
def PointsApart (text : List Char) : Prop :=
  ∀ before between after, text = before ++ '.' :: (between ++ '.' :: after) →
    ∃ c ∈ between, isAsciiDigit c = false

theorem PointsApart.of_infix (apart : PointsApart text) (within : run <:+: text) :
    PointsApart run := by
  rcases within with ⟨left, right, rfl⟩
  rintro before between after rfl
  exact apart (left ++ before) between (after ++ right) (by simp)

/-- A run in which no second point follows is a number. -/
theorem IsRun.isNumeral (isRun : IsRun run) (apart : PointsApart run) : IsNumeral run := by
  rcases isRun.exists_whole with ⟨whole, nonempty, digits, rfl | ⟨after, others, rfl, inAfter⟩⟩
  · exact isNumeral_of_digits nonempty digits
  · have noPoint : '.' ∉ after := by
      intro member
      rcases List.eq_append_cons_of_mem member with ⟨between, later, rfl, isFirst⟩
      rcases apart whole between later rfl with ⟨c, inBetween, notDigit⟩
      rcases inAfter c (List.mem_append_left _ inBetween) with digit | rfl
      · exact Bool.false_ne_true (notDigit.symm.trans digit)
      · exact isFirst inBetween
    have fraction : ∀ c ∈ after, isAsciiDigit c = true := fun c member =>
      (inAfter c member).resolve_right fun isPoint => noPoint (isPoint ▸ member)
    have isNumeral := isNumeral_pointText nonempty digits fraction
    rwa [Number.pointText, if_neg others] at isNumeral

theorem isRun_of_digits (nonempty : whole ≠ []) (digits : ∀ c ∈ whole, isAsciiDigit c = true) :
    IsRun whole where
  characters c member := .inl (digits c member)
  begins := ⟨whole.head nonempty, List.head?_eq_some_head nonempty, digits _ (List.head_mem _)⟩
  ends := ⟨whole.getLast nonempty, List.getLast?_eq_some_getLast nonempty,
    digits _ (List.getLast_mem _)⟩

theorem IsRun.point (isRun : IsRun run) (others : IsRun next) : IsRun (run ++ '.' :: next) where
  characters c member := by
    rcases List.mem_append.mp member with member | member
    · exact isRun.characters c member
    rcases List.mem_cons.mp member with rfl | member
    · exact .inr rfl
    · exact others.characters c member
  begins := by
    rw [List.head?_append_of_ne_nil _ isRun.ne_nil]
    exact isRun.begins
  ends := by
    rw [List.getLast?_append_of_ne_nil _ (List.cons_ne_nil _ _),
      List.getLast?_cons_of_ne_nil others.ne_nil]
    exact others.ends

theorem Numeral.isRun (numeral : Numeral) : IsRun numeral.text := by
  have digits : ∀ values : List (Fin 10), values ≠ [] → IsRun (values.map digitChar) :=
    fun values nonempty =>
      isRun_of_digits (by simpa using nonempty) fun c => isAsciiDigit_of_mem_map
  have whole := digits (numeral.first :: numeral.others) (List.cons_ne_nil _ _)
  simp only [Numeral.text]
  split
  · exact whole
  · rename_i nonempty
    exact whole.point (digits numeral.fraction nonempty)

theorem IsNumeral.isRun (isNumeral : IsNumeral text) : IsRun text := by
  rcases isNumeral with ⟨numeral, rfl⟩
  exact numeral.isRun

/-! ## Runs that are read as numbers -/

theorem readExponent?_of_characters (characters : ∀ c ∈ text, isAsciiDigit c = true ∨ c = '.')
    {exponent : Int} (reads : Number.readExponent? text = some exponent) : text = [] := by
  cases text with
  | nil => rfl
  | cons c rest =>
    rw [Number.readExponent?] at reads
    split at reads
    · rename_i isMark
      rcases isMark with rfl | rfl
      · exact absurd (characters 'e' List.mem_cons_self) (by decide)
      · exact absurd (characters 'E' List.mem_cons_self) (by decide)
    · cases reads

theorem exists_exponent_of_readDecimal? (digits : ∀ c ∈ whole, isAsciiDigit c = true)
    {decimal : Number.Decimal}
    (reads : Number.readDecimal? (whole ++ '.' :: after) = some decimal) :
    ∃ exponent, Number.readExponent? (after.dropWhile isAsciiDigit) = some exponent := by
  have point : isAsciiDigit '.' = false := by decide
  have dropped : (whole ++ '.' :: after).dropWhile isAsciiDigit = '.' :: after := by
    rw [List.dropWhile_append_of_pos digits]
    simp [point]
  simp only [Number.readDecimal?, dropped, Number.splitFraction] at reads
  split at reads
  · cases reads
  · rcases Option.map_eq_some_iff.mp reads with ⟨exponent, readsExponent, -⟩
    exact ⟨exponent, readsExponent⟩

/-- A run that is read as a number, behind a sign or not, is one. -/
theorem IsRun.isNumeral_of_literal? (isRun : IsRun run) (sign : Option Bool) {number : Float}
    (reads : literal? (signText sign ++ run) = some number) : IsNumeral run := by
  rcases isRun.begins with ⟨first, isHead, digit⟩
  rcases List.head?_eq_some_iff.mp isHead with ⟨rest, run_eq⟩
  have split := splitSign_signText digit rest sign
  rw [← run_eq] at split
  simp only [literal?, split] at reads
  split at reads
  · rw [Number.readFloat?, split] at reads
    simp only [run_eq, Number.readWord?_of_isAsciiDigit digit] at reads
    rcases Option.map_eq_some_iff.mp reads with ⟨decimal, readsDecimal, -⟩
    rw [← run_eq] at readsDecimal
    rcases isRun.exists_whole with ⟨whole, nonempty, digits, rfl | ⟨after, others, rfl, inAfter⟩⟩
    · exact isNumeral_of_digits nonempty digits
    · rcases exists_exponent_of_readDecimal? digits readsDecimal with ⟨exponent, readsExponent⟩
      have nothingLeft := readExponent?_of_characters
        (fun c member => inAfter c ((List.dropWhile_sublist _).subset member)) readsExponent
      have fraction : ∀ c ∈ after, isAsciiDigit c = true := List.dropWhile_eq_nil_iff.mp nothingLeft
      have isNumeral := isNumeral_pointText nonempty digits fraction
      rwa [Number.pointText, if_neg others] at isNumeral
  · cases reads

/-! ## Which runs parse -/

theorem isLiteralChar_of_numeral {c : Char} (numeral : isAsciiDigit c = true ∨ c = '.') :
    isLiteralChar c = true := by
  rcases numeral with digit | rfl
  · simp [isLiteralChar, digit]
  · decide

theorem unsplit_of_isLiteralChar {c : Char} (isLiteral : isLiteralChar c = true) : Unsplit c :=
  ⟨noOperator_of_isLiteralChar isLiteral, ne_power_of_isLiteralChar isLiteral⟩

theorem IsRun.literalCharacters (isRun : IsRun run) : ∀ c ∈ run, isLiteralChar c = true :=
  fun c member => isLiteralChar_of_numeral (isRun.characters c member)

theorem IsRun.enclosed {allowed : Char → Prop} (isRun : IsRun run)
    (isAllowed : ∀ c, isLiteralChar c = true → allowed c) : Enclosed allowed run :=
  enclosed_of_forall fun c member =>
    have isLiteral := isRun.literalCharacters _ member
    ⟨ne_of_isLiteralChar isLiteral (by decide), ne_of_isLiteralChar isLiteral (by decide),
      isAllowed c isLiteral⟩

theorem IsRun.operandText (isRun : IsRun run) : OperandText run where
  enclosed := isRun.enclosed fun _ => noOperator_of_isLiteralChar
  ends offset before := by
    rw [lastOr_of_ne_nil isRun.ne_nil]
    exact isSign_of_isLiteralChar (isRun.literalCharacters _ (List.getLast_mem _)) offset

theorem outerLogarithm?_eq_none (absent : 'l' ∉ text) : outerLogarithm? text = none := by
  have nowhere : ∀ offset depth, outerLogarithmFrom offset depth text = none := by
    induction text with
    | nil => exact fun _ _ => rfl
    | cons c rest inductionHypothesis =>
      have different : c ≠ 'l' := fun same => absent (same ▸ List.mem_cons_self)
      have absentLater : 'l' ∉ rest := fun member => absent (List.mem_cons_of_mem _ member)
      intro offset depth
      simp [outerLogarithmFrom, inductionHypothesis absentLater, different]
  exact nowhere 0 0

/-- A text without brackets that is not read as a number. -/
theorem exists_unwrapped_of_not_mem {allowed : Char → Prop} (enclosed : Enclosed allowed text)
    (nonempty : text ≠ []) (noBracket : '(' ∉ text) (notLiteral : literal? text = none) :
    ∃ pairs, Unwrapped text pairs := by
  cases enclosed with
  | nil => exact absurd rfl nonempty
  | group inner behind => exact absurd List.mem_cons_self noBracket
  | plain notOpening notClosing _ behind =>
    rcases bracketPairs_plain_not_wrapped notOpening notClosing behind with
      ⟨pairs, pairs_eq, notWrapped⟩
    exact ⟨pairs, notLiteral, pairs_eq, notWrapped⟩

theorem IsRun.exists_unwrapped (isRun : IsRun run) (sign : Option Bool)
    (notLiteral : literal? (signText sign ++ run) = none) :
    ∃ pairs, Unwrapped (signText sign ++ run) pairs := by
  have noBracket : '(' ∉ signText sign ++ run := by
    intro member
    rcases List.mem_append.mp member with member | member
    · rcases sign with _ | _ | _ <;> simp [signText] at member
    · exact absurd (isRun.literalCharacters _ member) (by decide)
  exact exists_unwrapped_of_not_mem
    ((enclosed_signText sign).append isRun.operandText.enclosed.anything)
    (signText_append_ne_nil sign isRun.ne_nil) noBracket notLiteral

theorem IsRun.noSplit (isRun : IsRun run) (sign : Option Bool) :
    split? policy (signText sign ++ run) = none :=
  split?_eq_none (isRun.enclosed fun _ => unsplit_of_isLiteralChar) sign

/-- A run that is not read as a number cannot be taken apart. -/
theorem IsRun.shape?_eq_malformed (isRun : IsRun run) (notLiteral : literal? run = none) :
    shape? policy run = some .malformed := by
  have unwrapped : ∃ pairs, Unwrapped run pairs := isRun.exists_unwrapped none notLiteral
  rcases unwrapped with ⟨pairs, unwrapped⟩
  have noSplit : split? policy run = none := isRun.noSplit none
  have noCall : outerLogarithm? run = none :=
    outerLogarithm?_eq_none fun member => absurd (isRun.literalCharacters _ member) (by decide)
  have notSigned : ∀ sign rest, isLiteralChar sign = false → run ≠ sign :: rest := by
    rintro sign rest foreign rfl
    simp [isRun.literalCharacters _ List.mem_cons_self] at foreign
  rw [shape?, if_neg isRun.ne_nil, notLiteral]
  simp only [unwrapped.pairs_eq, unwrapped.notWrapped, Bool.false_eq_true, if_false, noSplit,
    noCall]
  split
  · exact absurd rfl (notSigned '-' _ (by decide))
  · exact absurd rfl (notSigned '+' _ (by decide))
  · rfl

/-- A run parses exactly if it is a number, also behind a sign. -/
theorem parses_run_iff (isRun : IsRun run) (sign : Option Bool) :
    Parses policy (signText sign ++ run) ↔ IsNumeral run := by
  have unsigned : Parses policy run → IsNumeral run := by
    intro parses
    cases reads : literal? run with
    | some number => exact isRun.isNumeral_of_literal? none reads
    | none =>
      rcases parses with ⟨shape_eq, parts_eq, -⟩
      cases shape_eq.symm.trans (isRun.shape?_eq_malformed reads)
      cases parts_eq
  constructor
  · intro parses
    cases sign with
    | none => exact unsigned parses
    | some negative =>
      cases reads : literal? (signText (some negative) ++ run) with
      | some number => exact isRun.isNumeral_of_literal? _ reads
      | none =>
        rcases isRun.exists_unwrapped _ reads with ⟨pairs, unwrapped⟩
        have noSplit : split? policy (signText (some negative) ++ run) = none := isRun.noSplit _
        have shape_eq := unwrapped.shape?_of_sign noSplit
        exact unsigned ((parses_iff shape_eq rfl).mp parses run (List.mem_singleton_self _))
  · rintro ⟨numeral, rfl⟩
    exact (numeral.literal.settles sign).parses

/-! ## Powers of runs -/

/-- A run, or a run raised to such a text. -/
inductive IsPowers (allowed : List Char → Prop) : List Char → Prop where
  | run {run : List Char} : allowed run → IsPowers allowed run
  | power {base exponent : List Char} :
      allowed base → IsPowers allowed exponent → IsPowers allowed (base ++ '^' :: exponent)

variable {allowed other : List Char → Prop}

theorem IsPowers.mono (isPowers : IsPowers allowed text) (weaker : ∀ run, allowed run → other run) :
    IsPowers other text := by
  induction isPowers with
  | run isAllowed => exact .run (weaker _ isAllowed)
  | power isAllowed _ inductionHypothesis => exact .power (weaker _ isAllowed) inductionHypothesis

/-- The runs of powers stand in their text. -/
theorem IsPowers.within (isPowers : IsPowers allowed text) :
    IsPowers (fun run => allowed run ∧ run <:+: text) text := by
  induction isPowers with
  | run isAllowed => exact .run ⟨isAllowed, List.infix_refl _⟩
  | @power base exponent isAllowed _ inductionHypothesis =>
    have behind : exponent <:+: base ++ '^' :: exponent := ⟨base ++ ['^'], [], by simp⟩
    exact .power ⟨isAllowed, (List.prefix_append _ _).isInfix⟩
      (inductionHypothesis.mono fun run ⟨isRun, isInfix⟩ => ⟨isRun, isInfix.trans behind⟩)

/-- A run directly before powers is part of their first base. -/
theorem IsPowers.prepend (isPowers : IsPowers IsRun text) (isRun : IsRun run) :
    IsPowers IsRun (run ++ text) := by
  cases isPowers with
  | run others => exact .run (isRun.append others)
  | power base exponent =>
    rw [← List.append_assoc]
    exact .power (isRun.append base) exponent

theorem IsPowers.append (isPowers : IsPowers IsRun text) (others : IsPowers IsRun next) :
    IsPowers IsRun (text ++ next) := by
  induction isPowers with
  | run isRun => exact others.prepend isRun
  | power isRun _ inductionHypothesis =>
    rw [List.append_assoc, List.cons_append]
    exact .power isRun inductionHypothesis

theorem IsPowers.begins (isPowers : IsPowers IsRun text) :
    ∃ c rest, text = c :: rest ∧ isAsciiDigit c = true := by
  cases isPowers with
  | run isRun =>
    rcases isRun.begins with ⟨c, isHead, digit⟩
    rcases List.head?_eq_some_iff.mp isHead with ⟨rest, rfl⟩
    exact ⟨c, rest, rfl, digit⟩
  | power isRun _ =>
    rcases isRun.begins with ⟨c, isHead, digit⟩
    rcases List.head?_eq_some_iff.mp isHead with ⟨rest, rfl⟩
    exact ⟨c, _, rfl, digit⟩

theorem IsPowers.ends (isPowers : IsPowers IsRun text) :
    ∃ c ∈ text.getLast?, isAsciiDigit c = true := by
  induction isPowers with
  | run isRun => exact isRun.ends
  | @power base exponent _ _ inductionHypothesis =>
    rcases inductionHypothesis with ⟨c, isLast, digit⟩
    refine ⟨c, ?_, digit⟩
    rw [List.getLast?_append_cons, List.getLast?_cons, isLast]
    rfl

theorem IsPowers.characters (isPowers : IsPowers IsRun text) :
    ∀ c ∈ text, isLiteralChar c = true ∨ c = '^' := by
  induction isPowers with
  | run isRun => exact fun c member => .inl (isRun.literalCharacters c member)
  | power isRun _ inductionHypothesis =>
    intro c member
    rcases List.mem_append.mp member with member | member
    · exact .inl (isRun.literalCharacters c member)
    rcases List.mem_cons.mp member with rfl | member
    · exact .inr rfl
    · exact inductionHypothesis c member

/-- Characters that numbers are not written with do not stand in powers. -/
theorem IsPowers.ne_of_mem (isPowers : IsPowers IsRun text) {c foreign : Char} (member : c ∈ text)
    (isForeign : isLiteralChar foreign = false) (notPower : foreign ≠ '^') : c ≠ foreign := by
  rcases isPowers.characters c member with isLiteral | rfl
  · exact ne_of_isLiteralChar isLiteral isForeign
  · exact notPower.symm

theorem IsPowers.operandText (isPowers : IsPowers IsRun text) : OperandText text := by
  induction isPowers with
  | run isRun => exact isRun.operandText
  | power isRun _ inductionHypothesis =>
    exact operandText_power isRun.operandText.enclosed inductionHypothesis

theorem IsRun.noPower (isRun : IsRun run) : Enclosed (· ≠ '^') run :=
  isRun.enclosed fun _ => ne_power_of_isLiteralChar

/-- Powers of numbers parse. -/
theorem IsPowers.parses (isPowers : IsPowers IsNumeral text) (sign : Option Bool) :
    Parses policy (signText sign ++ text) := by
  induction isPowers generalizing sign with
  | run isNumeral => exact (parses_run_iff isNumeral.isRun sign).mpr isNumeral
  | power isNumeral later inductionHypothesis =>
    have isRun := isNumeral.isRun
    have exponentText := (later.mono fun _ => IsNumeral.isRun).operandText
    exact (parses_power_iff isRun.operandText isRun.noPower exponentText sign).mpr
      ⟨(parses_run_iff isRun sign).mpr isNumeral, inductionHypothesis none⟩

/-- Powers of runs parse only if the runs are numbers. -/
theorem IsPowers.of_parses (isPowers : IsPowers IsRun text) (sign : Option Bool)
    (parses : Parses policy (signText sign ++ text)) : IsPowers IsNumeral text := by
  induction isPowers generalizing sign with
  | run isRun => exact .run ((parses_run_iff isRun sign).mp parses)
  | power isRun later inductionHypothesis =>
    rcases (parses_power_iff isRun.operandText isRun.noPower later.operandText sign).mp parses with
      ⟨baseParses, exponentParses⟩
    exact .power ((parses_run_iff isRun sign).mp baseParses)
      (inductionHypothesis none exponentParses)

end Formulary.Formula
