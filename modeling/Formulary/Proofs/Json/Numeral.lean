import Formulary.Json.Numeral
import Formulary.Proofs.Number.Plain

/-!
# Written numbers

A number is written as a sign, digits, a point with more digits, and an exponent. `Numeral.text`
writes the parts of a number down in this way, and `Numeral.ofText?_text` says that they are read
back. Whole numbers and doubles are written as the texts of such parts.
-/

namespace Formulary.Json

open Text (isAsciiDigit digitsValue)
open Number (Decimal Layout Tie pointText wholeDigits fractionDigits isAsciiDigit_of_mem_toDigits)

/-! ## Parts and their texts -/

/-- The text of an exponent, which has a sign in any case. -/
def exponentText : Option Int → List Char
  | none => []
  | some exponent =>
    'e' :: (if exponent < 0 then '-' else '+') :: Nat.toDigits 10 exponent.natAbs

/-- The text of a number with these parts. -/
def Numeral.text (numeral : Numeral) : List Char :=
  (if numeral.negative then ['-'] else []) ++
    (pointText numeral.whole numeral.fraction ++ exponentText numeral.exponent)

/-- The whole part is zero or has no zero in front, and it and the fraction are made of digits. -/
structure Numeral.WellFormed (numeral : Numeral) : Prop where
  whole : ∀ c ∈ numeral.whole, isAsciiDigit c = true
  leading : numeral.whole = ['0'] ∨ numeral.whole ≠ [] ∧ numeral.whole.head? ≠ some '0'
  fraction : ∀ c ∈ numeral.fraction, isAsciiDigit c = true

variable {numeral : Numeral} {digits rest : List Char}

theorem Numeral.WellFormed.whole_ne_nil (wellFormed : numeral.WellFormed) : numeral.whole ≠ [] := by
  rcases wellFormed.leading with isZero | ⟨nonempty, -⟩
  · rw [isZero]
    exact List.cons_ne_nil _ _
  · exact nonempty

/-- Characters of a kind end where a text begins that has no such character in front. -/
theorem takeWhile_of_ends {kind : Char → Bool} (inside : ∀ c ∈ digits, kind c = true)
    (ends : ∀ c ∈ rest.head?, kind c = false) :
    (digits ++ rest).takeWhile kind = digits ∧ (digits ++ rest).dropWhile kind = rest := by
  rw [List.takeWhile_append_of_pos inside, List.dropWhile_append_of_pos inside]
  cases rest with
  | nil => simp
  | cons c rest => simp [ends c rfl]

theorem readExponent?_signed (negative : Bool) (size : Nat) :
    Number.readExponent? ('e' :: (if negative then '-' else '+') :: Nat.toDigits 10 size) =
      some (if negative then -(size : Int) else size) := by
  have ascii : (Nat.toDigits 10 size).all isAsciiDigit = true :=
    List.all_eq_true.mpr fun _ => isAsciiDigit_of_mem_toDigits
  have spelled : digitsValue (Nat.toDigits 10 size) = size := Nat.ofDigitChars_ten_toDigits
  have signed : Number.splitSign ((if negative then '-' else '+') :: Nat.toDigits 10 size) =
      (negative, Nat.toDigits 10 size) := by
    cases negative <;> rfl
  rw [Number.readExponent?, if_pos (.inl rfl), signed]
  simp only
  rw [if_pos ⟨Nat.toDigits_ne_nil, ascii⟩, spelled]

theorem readExponent?_exponentText (exponent : Option Int) :
    readExponent? (exponentText exponent) = some exponent := by
  cases exponent with
  | none => rfl
  | some exponent =>
    have signed := readExponent?_signed (decide (exponent < 0)) exponent.natAbs
    have same : (if exponent < 0 then -(exponent.natAbs : Int) else exponent.natAbs) = exponent := by
      omega
    simp only [decide_eq_true_eq, same] at signed
    rw [exponentText, readExponent?, signed, Option.map_some]
    exact nofun

theorem head?_exponentText (exponent : Option Int) :
    ∀ c ∈ (exponentText exponent).head?, c = 'e' := by
  cases exponent with
  | none => nofun
  | some exponent =>
    rintro c ⟨⟩
    rfl

/-- A sign in front is read beside the rest of the number. -/
theorem ofText?_minus (unsigned : ∀ after, rest = '-' :: after → False) :
    Numeral.ofText? ('-' :: rest) =
      (Numeral.ofText? rest).map fun numeral => { numeral with negative := true } := by
  rw [Numeral.ofText?, Numeral.ofText?]
  · simp only [bind_pure_comp, Option.map_eq_map, Option.bind_eq_bind, Option.map_bind]
    congr 1
    funext
    simp only [Function.comp]
    split
    · rw [Option.map_bind]
      simp only [Function.comp_def, Option.map_map]
    · rw [Option.map_map]
      rfl
  · exact unsigned

/-- The first character of a well-formed number without sign is a digit. -/
theorem exists_unsigned_eq_cons (wellFormed : numeral.WellFormed) (behind : List Char) :
    ∃ first rest, pointText numeral.whole numeral.fraction ++ behind = first :: rest ∧
      isAsciiDigit first = true := by
  have begins : ∃ first rest, pointText numeral.whole numeral.fraction = first :: rest ∧
      isAsciiDigit first = true :=
    Number.exists_pointText_eq_cons wellFormed.whole_ne_nil wellFormed.whole
  rcases begins with ⟨first, rest, text_eq, digit⟩
  rw [text_eq]
  exact ⟨first, rest ++ behind, rfl, digit⟩

theorem unsigned_ne_minus (wellFormed : numeral.WellFormed) (behind after : List Char) :
    pointText numeral.whole numeral.fraction ++ behind = '-' :: after → False := by
  intro text_eq
  rcases exists_unsigned_eq_cons wellFormed behind with ⟨first, rest, same, digit⟩
  cases text_eq.symm.trans same
  cases digit

theorem ofText?_unsigned {whole fraction : List Char} {exponent : Option Int}
    (wellFormed : (⟨false, whole, fraction, exponent⟩ : Numeral).WellFormed) :
    Numeral.ofText? (pointText whole fraction ++ exponentText exponent) =
      some ⟨false, whole, fraction, exponent⟩ := by
  have noDigit : ∀ c ∈ (exponentText exponent).head?, isAsciiDigit c = false := by
    intro c isHead
    rw [head?_exponentText exponent c isHead]
    rfl
  have unsigned : ∀ after,
      pointText whole fraction ++ exponentText exponent = '-' :: after → False :=
    unsigned_ne_minus wellFormed _
  rw [pointText] at unsigned ⊢
  cases fraction with
  | nil =>
    rcases takeWhile_of_ends wellFormed.whole noDigit with ⟨taken, dropped⟩
    rw [if_pos rfl] at unsigned ⊢
    rw [Numeral.ofText?]
    · simp only [taken, dropped, guard, if_pos wellFormed.leading]
      split
      · rename_i afterPoint text_eq
        have isMark := head?_exponentText exponent '.' (by rw [text_eq]; rfl)
        cases isMark
      · rw [readExponent?_exponentText]
        rfl
    · exact unsigned
  | cons place places =>
    have noPoint : ∀ c ∈ ('.' :: (place :: places ++ exponentText exponent)).head?,
        isAsciiDigit c = false := by
      rintro c ⟨⟩
      rfl
    rcases takeWhile_of_ends wellFormed.whole noPoint with ⟨taken, dropped⟩
    rcases takeWhile_of_ends wellFormed.fraction noDigit with ⟨fractionTaken, fractionDropped⟩
    rw [if_neg (List.cons_ne_nil place places), List.append_assoc, List.cons_append] at unsigned ⊢
    rw [Numeral.ofText?]
    · simp only [taken, dropped, fractionTaken, fractionDropped, guard, if_pos wellFormed.leading,
        if_pos (List.cons_ne_nil place places), readExponent?_exponentText]
      rfl
    · exact unsigned

/-- A well-formed number is read as it is written. -/
theorem Numeral.ofText?_text (wellFormed : numeral.WellFormed) :
    Numeral.ofText? numeral.text = some numeral := by
  rcases numeral with ⟨negative, whole, fraction, exponent⟩
  have size : (⟨false, whole, fraction, exponent⟩ : Numeral).WellFormed :=
    ⟨wellFormed.whole, wellFormed.leading, wellFormed.fraction⟩
  have read := ofText?_unsigned size
  cases negative with
  | false => exact read
  | true =>
    have minus := ofText?_minus (unsigned_ne_minus size (exponentText exponent))
    rw [read] at minus
    exact minus

/-! ## Written digits -/

/-- A whole number other than zero is written without a zero in front. -/
theorem head?_toDigits {number : Nat} (nonzero : number ≠ 0) :
    (Nat.toDigits 10 number).head? ≠ some '0' := by
  induction number using Nat.strongRecOn with
  | _ number inductionHypothesis =>
    rw [Nat.toDigits_eq_if (by decide)]
    split
    · rename_i small
      have digitNonzero : ∀ digit < 10, digit ≠ 0 → Nat.digitChar digit ≠ '0' := by decide
      simpa using digitNonzero number small nonzero
    · rename_i large
      have shorter := inductionHypothesis (number / 10) (by omega) (by omega)
      rwa [List.head?_append_of_ne_nil _ Nat.toDigits_ne_nil]

theorem leading_toDigits (number : Nat) :
    Nat.toDigits 10 number = ['0'] ∨
      Nat.toDigits 10 number ≠ [] ∧ (Nat.toDigits 10 number).head? ≠ some '0' := by
  by_cases isZero : number = 0
  · subst isZero
    exact .inl rfl
  · exact .inr ⟨Nat.toDigits_ne_nil, head?_toDigits isZero⟩

/-! ## Whole numbers -/

/-- The parts of a whole number. -/
def intNumeral (value : Int) : Numeral :=
  ⟨decide (value < 0), Nat.toDigits 10 value.natAbs, [], none⟩

theorem wellFormed_intNumeral (value : Int) : (intNumeral value).WellFormed where
  whole _ := isAsciiDigit_of_mem_toDigits
  leading := leading_toDigits value.natAbs
  fraction := nofun

theorem intText_eq (value : Int) : intText value = (intNumeral value).text := by
  rw [intText, intNumeral, Numeral.text]
  split <;> simp [*, pointText, exponentText]

/-- A whole number of 64 bits, with or without sign, is read as it is written. -/
theorem toInt?_intNumeral {value : Int} (atLeast : -signedLimit ≤ value)
    (below : value < wordLimit) : (intNumeral value).toInt? = some value := by
  have spelled : digitsValue (Nat.toDigits 10 value.natAbs) = value.natAbs :=
    Nat.ofDigitChars_ten_toDigits
  simp only [Numeral.toInt?, intNumeral, and_self, if_true, spelled, decide_eq_true_eq]
  split
  · rw [if_pos ⟨by omega, by omega⟩]
    congr 1
    omega
  · rw [if_pos (by omega)]
    congr 1
    omega

/-! ## Doubles -/

/-- The parts of a decimal as a layout writes it. -/
def decimalNumeral (layout : Layout) (negative : Bool) (decimal : Decimal) : Numeral :=
  let digits := decimal.digits
  let point := digits.length + decimal.exponent
  if layout.isPositional (point - 1) then
    ⟨negative, wholeDigits digits point,
      (fractionDigits digits point).rightpad layout.places '0', none⟩
  else
    ⟨negative, digits.take 1, digits.drop 1, some (point - 1)⟩

theorem exponentText_eq (nonempty : digits ≠ []) (power : Int) :
    Layout.exponentText digits power =
      pointText (digits.take 1) (digits.drop 1) ++ exponentText (some power) := by
  match digits with
  | [first] => rfl
  | first :: second :: others => rfl

theorem negative_decimalNumeral (layout : Layout) (negative : Bool) (decimal : Decimal) :
    (decimalNumeral layout negative decimal).negative = negative := by
  rw [decimalNumeral]
  split <;> rfl

theorem decimalText_eq (layout : Layout) (negative : Bool) (decimal : Decimal) :
    layout.decimalText decimal =
      pointText (decimalNumeral layout negative decimal).whole
          (decimalNumeral layout negative decimal).fraction ++
        exponentText (decimalNumeral layout negative decimal).exponent := by
  rw [Layout.decimalText, decimalNumeral]
  split
  · exact (List.append_nil _).symm
  · exact exponentText_eq Nat.toDigits_ne_nil _

theorem finiteText_eq (layout : Layout) (negative : Bool) (significand : Nat) (exponent : Int) :
    layout.finiteText negative significand exponent =
      (decimalNumeral layout negative (Number.shortest layout.tie significand exponent)).text := by
  rw [Numeral.text, negative_decimalNumeral, ← decimalText_eq, Layout.finiteText]
  cases negative <;> rfl

/-- Where the point is set among digits, no needless zeros come before it. -/
theorem leading_wholeDigits {number : Nat} {point : Int} (proper : number ≠ 0 ∨ point = 1) :
    wholeDigits (Nat.toDigits 10 number) point = ['0'] ∨
      wholeDigits (Nat.toDigits 10 number) point ≠ [] ∧
        (wholeDigits (Nat.toDigits 10 number) point).head? ≠ some '0' := by
  by_cases isZero : number = 0
  · rw [isZero, proper.resolve_left (absurd isZero)]
    exact .inl rfl
  rw [wholeDigits]
  split
  · exact .inl rfl
  · rename_i positive
    -- Zeros are filled in behind the digits only, so the first digit stays in front.
    have leading := head?_toDigits isZero
    cases digits_eq : Nat.toDigits 10 number with
    | nil => exact absurd digits_eq Nat.toDigits_ne_nil
    | cons first others =>
      rw [digits_eq] at leading
      obtain ⟨before, before_eq⟩ := Nat.exists_eq_succ_of_ne_zero positive
      rw [before_eq, List.take_succ_cons, List.rightpad, List.cons_append]
      exact .inr ⟨List.cons_ne_nil _ _, leading⟩

theorem wellFormed_decimalNumeral (layout : Layout) (negative : Bool) {decimal : Decimal}
    (proper : decimal.coefficient ≠ 0 ∨ decimal.exponent = 0) :
    (decimalNumeral layout negative decimal).WellFormed := by
  have ascii : ∀ c ∈ decimal.digits, isAsciiDigit c = true :=
    fun _ member => isAsciiDigit_of_mem_toDigits member
  rw [decimalNumeral]
  split
  · constructor
    · exact Number.isAsciiDigit_wholeDigits ascii _
    · apply leading_wholeDigits
      by_cases isZero : decimal.coefficient = 0
      · right
        rw [proper.resolve_left (absurd isZero), Decimal.digits, isZero]
        rfl
      · exact .inl isZero
    · intro c member
      rcases List.mem_append.mp member with own | padding
      · exact Number.isAsciiDigit_fractionDigits ascii _ c own
      · exact Number.isAsciiDigit_of_mem_replicate padding
  · have nonempty : decimal.digits ≠ [] := Nat.toDigits_ne_nil
    rcases List.exists_cons_of_ne_nil nonempty with ⟨first, others, digits_eq⟩
    rw [digits_eq] at ascii ⊢
    constructor
    · exact fun c member => ascii c (List.mem_of_mem_take member)
    · by_cases isZero : first = '0'
      · exact .inl (by rw [isZero]; rfl)
      · exact .inr ⟨List.cons_ne_nil _ _, fun same => isZero (Option.some.inj same)⟩
    · exact fun c member => ascii c (List.mem_of_mem_drop member)

/-- A trimmed zero has no exponent. -/
theorem proper_trim (decimal : Decimal) :
    decimal.trim.coefficient ≠ 0 ∨ decimal.trim.exponent = 0 := by
  by_cases isZero : decimal.trim.coefficient = 0
  · right
    rw [← decimal.trim_trim, Decimal.trim, if_pos isZero]
  · exact .inl isZero

/-- The text of a finite double is that of a well-formed number. -/
theorem exists_of_floatText? {x : Float} {text : List Char} (written : floatText? x = some text) :
    ∃ numeral : Numeral, numeral.WellFormed ∧ text = numeral.text := by
  rw [floatText?] at written
  split at written
  · rename_i negative significand exponent _
    cases written
    have proper : (Number.shortest numeralLayout.tie significand exponent).coefficient ≠ 0 ∨
        (Number.shortest numeralLayout.tie significand exponent).exponent = 0 := proper_trim _
    exact ⟨_, wellFormed_decimalNumeral numeralLayout negative proper, finiteText_eq _ _ _ _⟩
  · cases written

/-- A double has a text if it is finite. -/
theorem isSome_floatText?_iff (x : Float) : (floatText? x).isSome ↔ x.isFinite = true := by
  rw [floatText?]
  rcases Number.ofFloat_cases x with ⟨parts, rfl⟩ | ⟨negative, parts, rfl⟩ |
    ⟨negative, significand, exponent, bits, parts, scaled, rfl⟩
  · rw [parts]
    decide
  · rw [parts, Number.infinity, Number.isFinite_ofMagnitude negative (Nat.le_refl _)]
    simp
  · rw [parts, Number.isFinite_ofMagnitude negative scaled.bits_le]
    simp [Nat.ne_of_lt scaled.bits_lt]

end Formulary.Json
