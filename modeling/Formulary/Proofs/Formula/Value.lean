import Formulary.Formula.Substitution
import Formulary.Proofs.Formula.Operand
import Formulary.Proofs.Number.Plain

/-!
# Numbers and values in formulas

Numbers are written into formulas by hand, and values in place of markers. Both evaluate to what
they are written for, also behind a sign; a value is never taken apart by the operators around it.
-/

namespace Formulary.Formula

open Text
open Number (Spells ofMagnitude)

/-! ## Numbers -/

theorem splitSign_signText {first : Char} (digit : isAsciiDigit first = true) (rest : List Char)
    (sign : Option Bool) :
    Number.splitSign (signText sign ++ first :: rest) = (sign == some true, first :: rest) := by
  cases sign with
  | none => exact Number.splitSign_of_isAsciiDigit digit
  | some negative => cases negative <;> rfl

theorem signed_ofMagnitude {bits : Nat} (inRange : bits ≤ Number.infinityBits)
    (sign : Option Bool) :
    signed sign (ofMagnitude false bits) = ofMagnitude (sign == some true) bits := by
  rcases sign with _ | _ | _
  · rfl
  · rfl
  · exact Number.neg_ofMagnitude false inRange

/-- A written number is a literal for the double that it spells. -/
theorem literal_of_spells {text : List Char} {bits : Nat} (spells : Spells text bits) :
    Literal text (ofMagnitude false bits) := by
  rcases spells.exists_cons with ⟨first, rest, cons, digit⟩
  have numeral := spells.characters
  constructor
  · rw [cons]
    exact List.cons_ne_nil _ _
  · intro c member
    simp [isLiteralChar, numeral c member]
  · intro sign
    have split := splitSign_signText digit rest sign
    rw [← cons] at split
    have nonempty : text ≠ [] := by simp [cons]
    have all : (text.all fun c => isAsciiDigit c || c == '.') = true := List.all_eq_true.mpr numeral
    rw [literal?, split]
    simp only [all, nonempty, ne_eq, not_false_eq_true, and_self, true_or, if_true]
    rw [spells.readFloat?_of_splitSign split, signed_ofMagnitude spells.bits_le]

theorem literal_infinity : Literal ['i', 'n', 'f'] (Number.infinity false) where
  nonempty := List.cons_ne_nil _ _
  characters := List.all_eq_true.mp (by decide)
  reads sign := by
    rw [Number.infinity, signed_ofMagnitude (Nat.le_refl _)]
    rcases sign with _ | _ | _ <;> decide +kernel

theorem literal_nan : Literal ['N', 'a', 'N'] Number.nan where
  nonempty := List.cons_ne_nil _ _
  characters := List.all_eq_true.mp (by decide)
  reads sign := by
    rcases sign with _ | _ | _ <;> decide +kernel

theorem digitChar_isAsciiDigit (digit : Fin 10) : isAsciiDigit (digitChar digit) = true := by
  revert digit
  decide

/-- The digits of a number as it is written. -/
theorem isAsciiDigit_of_mem_map {c : Char} {digits : List (Fin 10)}
    (member : c ∈ digits.map digitChar) : isAsciiDigit c = true := by
  rcases List.mem_map.mp member with ⟨digit, -, rfl⟩
  exact digitChar_isAsciiDigit digit

theorem Numeral.literal (numeral : Numeral) : Literal numeral.text numeral.value := by
  apply literal_of_spells
  refine ⟨(numeral.first :: numeral.others).map digitChar, numeral.fraction.map digitChar, ?_,
    List.cons_ne_nil _ _, fun c => isAsciiDigit_of_mem_map, fun c => isAsciiDigit_of_mem_map, rfl⟩
  simp [Numeral.text, Number.pointText]

/-! ## Values -/

/-- An operand that is not taken apart and settles on a value, also behind a sign. -/
structure Standing (policy : SplitPolicy) (text : List Char) (value : Option Float) : Prop where
  operandText : OperandText text
  settles : ∀ sign, Settles policy (signText sign ++ text) (value.map (signed sign))

variable {policy : SplitPolicy} {text inner : List Char} {value : Option Float} {number : Float}

theorem Literal.standing (literal : Literal text number) : Standing policy text (some number) where
  operandText := literal.operandText
  settles := literal.settles

/-- A text in brackets. -/
theorem standing_group (enclosed : Enclosed (fun _ => True) inner)
    (part : Settles policy inner value) :
    Standing policy ('(' :: (inner ++ [')'])) value where
  operandText := operandText_group enclosed
  settles := settles_sign enclosed.wrap (c := ')') (by simp) (by decide)
    (settles_group enclosed part)

/-- A number behind a minus, in brackets. -/
theorem Literal.standing_negative (literal : Literal text number) :
    Standing policy ('(' :: ('-' :: text ++ [')'])) (some (-number)) :=
  standing_group ((enclosed_signText (some true)).append literal.operandText.enclosed.anything)
    (literal.settles (some true))

/-- The logarithm of a number to the base of another. -/
theorem standing_logarithm {argument base : List Char} {argumentNumber baseNumber : Float}
    (argumentLiteral : Literal argument argumentNumber) (baseLiteral : Literal base baseNumber) :
    Standing policy (logarithmText argument base) (some (logarithm argumentNumber baseNumber)) where
  operandText := operandText_logarithm argumentLiteral baseLiteral
  settles := settles_sign (enclosed_logarithmText argumentLiteral baseLiteral) (c := ';')
    (by simp [logarithmText]) (by decide) (settles_logarithm argumentLiteral baseLiteral)

theorem literal_zero : Literal ['0'] 0 := by
  have literal := (Numeral.mk 0 [] []).literal
  have value_eq : (Numeral.mk 0 [] []).value = 0 := by decide +kernel
  rwa [value_eq] at literal

theorem withoutZeroSign_ofMagnitude {bits : Nat} (inRange : bits ≤ Number.infinityBits)
    (negative : Bool) :
    withoutZeroSign (ofMagnitude negative bits) =
      if bits = 0 then 0 else ofMagnitude negative bits := by
  have isZero := Number.beq_zero_ofMagnitude negative inRange
  simp only [withoutZeroSign, isZero]

/-- Either zero is written in the same way. -/
theorem valueText_of_beq_zero {value : Float} (isZero : (value == 0) = true) :
    valueText value = ['0'] := by
  rcases Number.ofFloat_cases value with
    ⟨-, rfl⟩ | ⟨negative, -, rfl⟩ | ⟨negative, significand, exponent, bits, parts, scaled, rfl⟩
  · exact absurd isZero (by decide +kernel)
  · cases (Number.beq_zero_ofMagnitude negative (Nat.le_refl _)).mp isZero
  · have noSize := (Number.beq_zero_ofMagnitude negative scaled.bits_le).mp isZero
    simp only [valueText, parts, scaled.bits_eq_zero_iff.mp noSize]

/-- The sign of a zero cannot be seen in a formula. -/
theorem valueText_withoutZeroSign (value : Float) :
    valueText (withoutZeroSign value) = valueText value := by
  rw [withoutZeroSign]
  split
  · rename_i isZero
    rw [valueText_of_beq_zero isZero, valueText_of_beq_zero (by decide +kernel)]
  · rfl

/-- The text of a size, in brackets behind a minus if it is negative. -/
def sizeText (negative : Bool) (text : List Char) : List Char :=
  if negative then '(' :: ('-' :: text ++ [')']) else text

/-- A text is a literal for this number, or that of its opposite in brackets behind a minus. -/
inductive Written : List Char → Float → Prop where
  | literal {text : List Char} {number : Float} : Literal text number → Written text number
  | negative {text : List Char} {number : Float} :
      Literal text number → Written ('(' :: ('-' :: text ++ [')'])) (-number)

theorem written_sizeText {bits : Nat} (literal : Literal text (ofMagnitude false bits))
    (inRange : bits ≤ Number.infinityBits) (negative : Bool) :
    Written (sizeText negative text) (ofMagnitude negative bits) := by
  cases negative with
  | false => exact .literal literal
  | true =>
    have negated : -ofMagnitude false bits = ofMagnitude true bits :=
      Number.neg_ofMagnitude false inRange
    rw [← negated]
    exact .negative literal

/-- How a value is written into a formula. -/
theorem written_valueText (value : Float) : Written (valueText value) (withoutZeroSign value) := by
  rcases Number.ofFloat_cases value with
    ⟨parts, rfl⟩ | ⟨negative, parts, rfl⟩ |
    ⟨negative, significand, exponent, bits, parts, scaled, rfl⟩
  · have text_eq : valueText Number.nan = ['N', 'a', 'N'] := by
      simp only [valueText, Number.plainText, parts]
    have value_eq : withoutZeroSign Number.nan = Number.nan := by decide +kernel
    rw [text_eq, value_eq]
    exact .literal literal_nan
  · have text_eq : valueText (Number.infinity negative) = sizeText negative ['i', 'n', 'f'] := by
      cases negative <;> simp [valueText, Number.plainText, parts, sizeText]
    have value_eq : withoutZeroSign (Number.infinity negative) = Number.infinity negative :=
      withoutZeroSign_ofMagnitude (Nat.le_refl _) negative
    rw [text_eq, value_eq]
    exact written_sizeText literal_infinity (Nat.le_refl _) negative
  · have zero_iff := scaled.bits_eq_zero_iff
    rw [withoutZeroSign_ofMagnitude scaled.bits_le]
    by_cases isZero : significand = 0
    · have text_eq : valueText (ofMagnitude negative bits) = ['0'] := by
        simp [valueText, parts, isZero]
      rw [text_eq, if_pos (zero_iff.mpr isZero)]
      exact .literal literal_zero
    · have text_eq : valueText (ofMagnitude negative bits) =
          sizeText negative (Number.plainLayout.decimalText
            (Number.shortest Number.plainLayout.tie significand exponent)) := by
        cases negative <;>
          simp [valueText, Number.plainText, parts, isZero, Number.Layout.finiteText, sizeText]
      rw [text_eq, if_neg fun bitsZero => isZero (zero_iff.mp bitsZero)]
      exact written_sizeText (literal_of_spells (scaled.spells isZero)) scaled.bits_le negative

theorem Written.standing {number : Float} (written : Written text number) :
    Standing policy text (some number) := by
  cases written with
  | literal literal => exact literal.standing
  | negative literal => exact literal.standing_negative

/-- The text that is written for a value settles on it. -/
theorem standing_valueText (value : Float) :
    Standing policy (valueText value) (some (withoutZeroSign value)) :=
  (written_valueText value).standing

end Formulary.Formula
