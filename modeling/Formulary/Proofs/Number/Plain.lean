import Formulary.Number.Layout
import Formulary.Number.Reader
import Formulary.Proofs.Number.Decimal
import Formulary.Proofs.Number.Word

/-!
# Plain texts read back

A written number is digits with perhaps a point among them. Such a text is read as the decimal that
its digits spell, with the sign before it, if there is one. The plain text of a double is of this
kind, and it is read as that double.
-/

namespace Formulary.Number

open Text (isAsciiDigit digitsValue)

/-! ## Digits with a point -/

/-- Digits, and a point with more digits if there are any. -/
def pointText (whole fraction : List Char) : List Char :=
  if fraction = [] then whole else whole ++ '.' :: fraction

theorem ne_of_isAsciiDigit {c other : Char} (digit : isAsciiDigit c = true)
    (isOther : isAsciiDigit other = false) : c ≠ other := by
  rintro rfl
  simp [digit] at isOther

theorem toLower_of_isAsciiDigit {c : Char} (digit : isAsciiDigit c = true) : c.toLower = c := by
  simp only [isAsciiDigit, Bool.and_eq_true, decide_eq_true_eq] at digit
  rw [Char.toLower, dif_neg]
  rintro ⟨atLeast, -⟩
  have : c ≤ '9' := digit.2
  exact absurd (UInt32.le_trans atLeast this) (by decide)

variable {whole fraction : List Char}

theorem takeWhile_fraction (digits : ∀ c ∈ fraction, isAsciiDigit c = true) :
    fraction.takeWhile isAsciiDigit = fraction ∧ fraction.dropWhile isAsciiDigit = [] := by
  have taken : (fraction ++ []).takeWhile isAsciiDigit = fraction ++ [].takeWhile isAsciiDigit :=
    List.takeWhile_append_of_pos digits
  have dropped : (fraction ++ []).dropWhile isAsciiDigit = [].dropWhile isAsciiDigit :=
    List.dropWhile_append_of_pos digits
  rw [List.append_nil] at taken dropped
  constructor
  · simpa using taken
  · exact dropped

theorem readDecimal?_pointText (nonempty : whole ≠ []) (digits : ∀ c ∈ whole, isAsciiDigit c = true)
    (others : ∀ c ∈ fraction, isAsciiDigit c = true) :
    readDecimal? (pointText whole fraction) = some (.ofDigits whole fraction 0) := by
  rw [pointText]
  split
  · rename_i isEmpty
    rcases takeWhile_fraction digits with ⟨taken, dropped⟩
    simp [readDecimal?, taken, dropped, splitFraction, nonempty, readExponent?, isEmpty]
  · have point : isAsciiDigit '.' = false := by decide
    rcases takeWhile_fraction others with ⟨taken, dropped⟩
    simp [readDecimal?, List.takeWhile_append_of_pos digits, List.dropWhile_append_of_pos digits,
      point, splitFraction, taken, dropped, nonempty, readExponent?]

/-- The first character of a written number is a digit. -/
theorem exists_pointText_eq_cons (nonempty : whole ≠ [])
    (digits : ∀ c ∈ whole, isAsciiDigit c = true) :
    ∃ first rest, pointText whole fraction = first :: rest ∧ isAsciiDigit first = true := by
  rcases List.exists_cons_of_ne_nil nonempty with ⟨first, rest, rfl⟩
  rw [pointText]
  split
  · exact ⟨first, rest, rfl, digits first List.mem_cons_self⟩
  · exact ⟨first, _, rfl, digits first List.mem_cons_self⟩

theorem readWord?_of_isAsciiDigit {first : Char} {rest : List Char} {negative : Bool}
    (digit : isAsciiDigit first = true) :
    readWord? negative ((first :: rest).map Char.toLower) = none := by
  have notI : first ≠ 'i' := ne_of_isAsciiDigit digit (by decide)
  have notN : first ≠ 'n' := ne_of_isAsciiDigit digit (by decide)
  simp [readWord?, toLower_of_isAsciiDigit digit, notI, notN]

theorem splitSign_of_isAsciiDigit {first : Char} {rest : List Char}
    (digit : isAsciiDigit first = true) : splitSign (first :: rest) = (false, first :: rest) := by
  have notMinus : first ≠ '-' := ne_of_isAsciiDigit digit (by decide)
  have notPlus : first ≠ '+' := ne_of_isAsciiDigit digit (by decide)
  rw [splitSign]
  · rintro _ ⟨⟩
    exact notMinus rfl
  · rintro _ ⟨⟩
    exact notPlus rfl

/-! ## Texts of sizes -/

/-- A text of digits, perhaps with a point, that is read as the double of this size. -/
def Spells (text : List Char) (bits : Nat) : Prop :=
  ∃ whole fraction, text = pointText whole fraction ∧ whole ≠ [] ∧
    (∀ c ∈ whole, isAsciiDigit c = true) ∧ (∀ c ∈ fraction, isAsciiDigit c = true) ∧
      (Decimal.ofDigits whole fraction 0).nearestBits = bits

variable {text : List Char} {bits : Nat}

theorem Spells.exists_cons (spells : Spells text bits) :
    ∃ first rest, text = first :: rest ∧ isAsciiDigit first = true := by
  rcases spells with ⟨whole, fraction, rfl, nonempty, digits, -, -⟩
  exact exists_pointText_eq_cons nonempty digits

theorem Spells.bits_le {text : List Char} {bits : Nat} (spells : Spells text bits) :
    bits ≤ infinityBits := by
  rcases spells with ⟨_, _, _, _, _, _, rfl⟩
  exact Decimal.nearestBits_le _

theorem Spells.characters (spells : Spells text bits) :
    ∀ c ∈ text, (isAsciiDigit c || c == '.') = true := by
  rcases spells with ⟨whole, fraction, rfl, -, digits, others, -⟩
  intro c member
  rw [pointText] at member
  split at member
  · simp [digits c member]
  · rcases List.mem_append.mp member with member | member
    · simp [digits c member]
    · rcases List.mem_cons.mp member with rfl | member
      · rfl
      · simp [others c member]

/-- What such a text is read as after a sign has been split off. -/
theorem Spells.readFloat?_of_splitSign (spells : Spells text bits) {negative : Bool}
    {written : List Char} (split : splitSign written = (negative, text)) :
    readFloat? written = some (ofMagnitude negative bits) := by
  rcases spells.exists_cons with ⟨first, rest, cons, digit⟩
  rcases spells with ⟨whole, fraction, text_eq, nonempty, digits, others, rfl⟩
  rw [readFloat?, split]
  simp only
  rw [cons, readWord?_of_isAsciiDigit digit, ← cons, text_eq,
    readDecimal?_pointText nonempty digits others]
  rfl

/-! ## Decimals without exponent -/

theorem digitsValue_eq (digits : List Char) : digitsValue digits = Nat.ofDigitChars 10 digits 0 :=
  rfl

theorem digitsValue_zeros_append (zeros : Nat) (digits : List Char) :
    digitsValue (List.replicate zeros '0' ++ digits) = digitsValue digits := by
  simp [digitsValue_eq, Nat.ofDigitChars_append]

theorem digitsValue_append_zeros (digits : List Char) (zeros : Nat) :
    digitsValue (digits ++ List.replicate zeros '0') = digitsValue digits * 10 ^ zeros := by
  simp [digitsValue_eq, Nat.ofDigitChars_append, Nat.mul_comm]

theorem isAsciiDigit_of_mem_toDigits {c : Char} {number : Nat}
    (member : c ∈ Nat.toDigits 10 number) :
    isAsciiDigit c = true := by
  have isDigit := Nat.isDigit_of_mem_toDigits (by decide) (by decide) member
  simp only [Char.isDigit, isAsciiDigit, Bool.and_eq_true, decide_eq_true_eq] at isDigit ⊢
  exact isDigit

theorem isAsciiDigit_of_mem_replicate {c : Char} {count : Nat}
    (member : c ∈ List.replicate count '0') : isAsciiDigit c = true := by
  rw [List.eq_of_mem_replicate member]
  decide

/-- The digits before the point, which stands after the first `point` of them. -/
def wholeDigits (digits : List Char) (point : Int) : List Char :=
  if point.toNat = 0 then ['0'] else (digits.take point.toNat).rightpad point.toNat '0'

/-- The digits after the point. -/
def fractionDigits (digits : List Char) (point : Int) : List Char :=
  List.replicate (-point).toNat '0' ++ digits.drop point.toNat

theorem positionalText_eq (digits : List Char) (point : Int) :
    Layout.positionalText 0 digits point =
      pointText (wholeDigits digits point) (fractionDigits digits point) := by
  simp only [Layout.positionalText, List.rightpad, Nat.zero_sub, List.replicate_zero,
    List.append_nil]
  rfl

theorem wholeDigits_ne_nil (digits : List Char) (point : Int) : wholeDigits digits point ≠ [] := by
  rw [wholeDigits]
  split
  · exact List.cons_ne_nil _ _
  · rename_i nonzero
    apply List.ne_nil_of_length_pos
    rw [List.length_rightpad]
    omega

theorem isAsciiDigit_wholeDigits {digits : List Char} (ascii : ∀ c ∈ digits, isAsciiDigit c = true)
    (point : Int) : ∀ c ∈ wholeDigits digits point, isAsciiDigit c = true := by
  intro c member
  rw [wholeDigits] at member
  split at member
  · rw [List.mem_singleton.mp member]
    decide
  · rcases List.mem_append.mp member with taken | padding
    · exact ascii c (List.mem_of_mem_take taken)
    · exact isAsciiDigit_of_mem_replicate padding

theorem isAsciiDigit_fractionDigits {digits : List Char}
    (ascii : ∀ c ∈ digits, isAsciiDigit c = true) (point : Int) :
    ∀ c ∈ fractionDigits digits point, isAsciiDigit c = true := by
  intro c member
  rcases List.mem_append.mp member with zeros | dropped
  · exact isAsciiDigit_of_mem_replicate zeros
  · exact ascii c (List.mem_of_mem_drop dropped)

/-- The point may be set anywhere among the digits, which are filled up with zeros. -/
theorem trim_ofDigits_parts (digits : List Char) (point : Int) :
    (Decimal.ofDigits (wholeDigits digits point) (fractionDigits digits point) 0).trim =
      Decimal.trim ⟨digitsValue digits, point - digits.length⟩ := by
  by_cases leading : point ≤ 0
  · -- All digits stand after the point.
    obtain ⟨zeros, rfl⟩ : ∃ zeros : Nat, point = -zeros := ⟨(-point).toNat, by omega⟩
    have spelled : digitsValue ('0' :: (List.replicate zeros '0' ++ digits)) = digitsValue digits :=
      digitsValue_zeros_append (zeros + 1) digits
    simp [wholeDigits, fractionDigits, Decimal.ofDigits, spelled]
    congr 2
    omega
  · obtain ⟨before, rfl⟩ : ∃ before : Nat, point = before := ⟨point.toNat, by omega⟩
    have nonzero : before ≠ 0 := by omega
    rcases Nat.lt_or_ge before digits.length with inside | trailing
    · have filled : before - min before digits.length = 0 := by omega
      simp [wholeDigits, fractionDigits, Decimal.ofDigits, nonzero, List.rightpad, filled]
      congr 2
      omega
    · -- All digits stand before the point, with zeros after them.
      have shifted := Decimal.trim_mul_pow (digitsValue digits) (before - digits.length) 0
      simp [wholeDigits, fractionDigits, Decimal.ofDigits, nonzero, List.rightpad,
        List.take_of_length_le trailing, List.drop_of_length_le trailing, digitsValue_append_zeros,
        shifted]
      congr 2
      omega

/-- The plain text of a decimal spells the double to which the decimal is rounded. -/
theorem spells_decimalText (decimal : Decimal) :
    Spells (plainLayout.decimalText decimal) decimal.nearestBits := by
  have ascii : ∀ c ∈ decimal.digits, isAsciiDigit c = true :=
    fun _ member => isAsciiDigit_of_mem_toDigits member
  refine ⟨_, _, positionalText_eq decimal.digits (decimal.digits.length + decimal.exponent),
    wholeDigits_ne_nil _ _, isAsciiDigit_wholeDigits ascii _,
    isAsciiDigit_fractionDigits ascii _, ?_⟩
  have spelled : digitsValue decimal.digits = decimal.coefficient :=
    Nat.ofDigitChars_ten_toDigits
  have moved : (decimal.digits.length + decimal.exponent : Int) - decimal.digits.length =
      decimal.exponent := by omega
  rw [← Decimal.nearestBits_trim, trim_ofDigits_parts, spelled, moved, Decimal.nearestBits_trim]

/-! ## Doubles -/

/-- What the parts of a double say of it. -/
theorem ofFloat_cases (x : Float) :
    (Parts.ofFloat x = .nan ∧ x = nan) ∨
      (∃ negative, Parts.ofFloat x = .infinite negative ∧ x = infinity negative) ∨
        ∃ negative significand exponent bits,
          Parts.ofFloat x = .finite negative significand exponent ∧
            Scaled significand exponent bits ∧ x = ofMagnitude negative bits := by
  simp only [Parts.ofFloat]
  split
  · rename_i noNumber
    exact .inl ⟨rfl, eq_nan noNumber⟩
  · rename_i isNumber
    have same := eq_ofMagnitude (Nat.not_lt.mp isNumber)
    split
    · rename_i top
      rw [top] at same
      exact .inr (.inl ⟨_, rfl, same⟩)
    · rename_i notTop
      have inRange : x.toBits.toNat % signBit < infinityBits := by omega
      split
      · rename_i bottom
        have small : x.toBits.toNat % signBit < leadingOne :=
          (Nat.div_eq_zero_iff.mp bottom).resolve_left (by decide)
        have scaled := scaled_of_lt_leadingOne small
        rw [Nat.mod_eq_of_lt small]
        exact .inr (.inr ⟨_, _, _, _, rfl, scaled, same⟩)
      · rename_i notBottom
        have scaled := scaled_of_lt_infinityBits notBottom inRange
        exact .inr (.inr ⟨_, _, _, _, rfl, scaled, same⟩)

variable {significand : Nat} {exponent : Int}

/-- The written size of a finite double spells the double. -/
theorem Scaled.spells (scaled : Scaled significand exponent bits) (nonzero : significand ≠ 0) :
    Spells (plainLayout.decimalText (shortest plainLayout.tie significand exponent)) bits := by
  rw [← nearestBits_shortest plainLayout.tie scaled nonzero]
  exact spells_decimalText _

end Formulary.Number
