import Mathlib
import Formulary.Number.Binary64

/-!
# Doubles as words

A double is given by the sign and the size in its word. Here the model of doubles is opened once:
what negation does to the word, when a double equals zero, and that all doubles which are no numbers
are the same. Everything else speaks of signs and sizes.
-/

namespace Formulary.Number

open Float.Model
open UnpackedFloat hiding unpack pack neg

/-! ## The three fields of a word -/

@[simp]
theorem ofBitVec_toBitVec (sign : Sign) : Sign.ofBitVec sign.toBitVec = sign := by
  cases sign <;> rfl

@[simp]
theorem exponentBias_binary64 : Format.binary64.exponentBias = 1023 :=
  rfl

@[simp]
theorem unpackSign_packComponents (sign : Sign) (exponent : BitVec 11) (mantissa : BitVec 52) :
    unpackSign (packComponents .binary64 sign exponent mantissa) = sign.toBitVec := by
  apply BitVec.eq_of_getLsbD_eq
  intro index inside
  have isZero : index = 0 := by omega
  subst isZero
  simp only [unpackSign, packComponents, BitVec.extractLsb, BitVec.getLsbD_cast,
    BitVec.getLsbD_extractLsb', BitVec.getLsbD_append]
  simp

theorem toNat_packComponents (sign : Sign) (exponent : BitVec 11) (mantissa : BitVec 52) :
    (packComponents .binary64 sign exponent mantissa).toNat =
      sign.toBitVec.toNat * signBit + exponent.toNat * leadingOne + mantissa.toNat := by
  have exponentSmall := exponent.isLt
  have mantissaSmall := mantissa.isLt
  rw [packComponents, BitVec.toNat_append, BitVec.toNat_append,
    ← Nat.shiftLeft_add_eq_or_of_lt exponentSmall, ← Nat.shiftLeft_add_eq_or_of_lt mantissaSmall]
  simp only [Nat.shiftLeft_eq, signBit, leadingOne]
  omega

/-- What the fields of a word stand for. -/
def unpackedFields (exponent : BitVec 11) (mantissa : BitVec 52) (sign : Sign) : UnpackedFloat :=
  UnpackedFloat.unpack .binary64 (packComponents .binary64 sign exponent mantissa)

variable {exponent : BitVec 11} {mantissa : BitVec 52}

theorem unpackedFields_infinite (sign : Sign) :
    unpackedFields (-1#11) 0#52 sign = .infinity sign := by
  cases sign <;> rfl

theorem unpackedFields_zero (sign : Sign) : unpackedFields 0#11 0#52 sign = .zero sign := by
  cases sign <;> rfl

theorem unpackedFields_subnormal (sign : Sign) (positive : 0 < mantissa.toNat) :
    unpackedFields 0#11 mantissa sign = .finite sign mantissa.toNat (-1074) positive := by
  have nonzero : mantissa ≠ 0#52 := by
    rintro rfl
    exact absurd positive (by decide)
  simp [unpackedFields, UnpackedFloat.unpack, nonzero]

theorem toNat_one_append (mantissa : BitVec 52) :
    (1#1 ++ mantissa).toNat = leadingOne + mantissa.toNat := by
  rw [BitVec.toNat_append, ← Nat.shiftLeft_add_eq_or_of_lt mantissa.isLt]
  rfl

theorem unpackedFields_normal (sign : Sign) (notBottom : exponent ≠ 0#11)
    (notTop : exponent ≠ -1#11) :
    unpackedFields exponent mantissa sign =
      .finite sign (leadingOne + mantissa.toNat) (exponent.toNat - 1075)
        (Nat.add_pos_left (by decide) _) := by
  have notTop' : exponent ≠ 2047#11 := notTop
  simp [unpackedFields, UnpackedFloat.unpack, notBottom, notTop', toNat_one_append]

/-! ## Putting words together again -/

theorem pack_subnormal (sign : Sign) (positive : 0 < mantissa.toNat) :
    UnpackedFloat.pack .binary64 (.finite sign mantissa.toNat (-1074) positive) =
      packComponents .binary64 sign 0#11 mantissa := by
  have small : mantissa.toNat.log2 < 52 :=
    (Nat.log2_lt (Nat.pos_iff_ne_zero.mp positive)).mpr mantissa.isLt
  have notNormal : mantissa.toNat.log2 + 1 ≠ Format.binary64.mantissaBits := by
    simp only [Format.mantissaBits]
    omega
  simp [UnpackedFloat.pack, notNormal]

theorem pack_normal (sign : Sign) (notTop : exponent ≠ -1#11) :
    UnpackedFloat.pack .binary64 (.finite sign (leadingOne + mantissa.toNat) (exponent.toNat - 1075)
        (Nat.add_pos_left (by decide) _)) =
      packComponents .binary64 sign exponent mantissa := by
  have mantissaSmall := mantissa.isLt
  have exponentSmall : exponent.toNat < 2047 := by
    have bounded := exponent.isLt
    have different : exponent.toNat ≠ (-1#11).toNat := fun same =>
      notTop (BitVec.eq_of_toNat_eq same)
    simp at different
    omega
  have log2_eq : (leadingOne + mantissa.toNat).log2 = 52 := by
    rw [Nat.log2_eq_iff (by simp [leadingOne])]
    simp only [leadingOne]
    omega
  have cleared : BitVec.ofNat 52 (leadingOne + mantissa.toNat) = mantissa := by
    apply BitVec.eq_of_toNat_eq
    simp only [BitVec.toNat_ofNat, leadingOne]
    omega
  have biased : (exponent.toNat - 1075 + 1023 + 52 : Int).toNat = exponent.toNat := by omega
  have inRange : ¬2 ^ 11 ≤ exponent.toNat + 1 := by omega
  simp only [UnpackedFloat.pack, exponentBias_binary64, Int.cast_ofNat_Int, biased, inRange,
    if_false, log2_eq, Format.mantissaBits, Nat.reduceAdd, if_true, BitVec.ofNat_toNat,
    BitVec.setWidth_eq, cleared]

/-- What a word stands for, if it is a number. -/
theorem unpackedFields_cases (isNumber : exponent = -1#11 → mantissa = 0#52) :
    (exponent = -1#11 ∧ mantissa = 0#52) ∨ (exponent = 0#11 ∧ mantissa = 0#52) ∨
      (exponent = 0#11 ∧ 0 < mantissa.toNat) ∨ (exponent ≠ 0#11 ∧ exponent ≠ -1#11) := by
  by_cases top : exponent = -1#11
  · exact .inl ⟨top, isNumber top⟩
  by_cases bottom : exponent = 0#11
  · rcases Nat.eq_zero_or_pos mantissa.toNat with zero | positive
    · exact .inr (.inl ⟨bottom, BitVec.eq_of_toNat_eq zero⟩)
    · exact .inr (.inr (.inl ⟨bottom, positive⟩))
  · exact .inr (.inr (.inr ⟨bottom, top⟩))

/-- Taking a word apart and putting it together again gives the word back, also with another sign,
unless it stands for no number. -/
theorem pack_unpackedFields (isNumber : exponent = -1#11 → mantissa = 0#52) (sign : Sign) :
    UnpackedFloat.pack .binary64 (unpackedFields exponent mantissa sign) =
        packComponents .binary64 sign exponent mantissa ∧
      (unpackedFields exponent mantissa sign).neg = unpackedFields exponent mantissa (-sign) := by
  rcases unpackedFields_cases isNumber with
    ⟨rfl, rfl⟩ | ⟨rfl, rfl⟩ | ⟨rfl, positive⟩ | ⟨notBottom, notTop⟩
  · rw [unpackedFields_infinite, unpackedFields_infinite]
    exact ⟨rfl, rfl⟩
  · rw [unpackedFields_zero, unpackedFields_zero]
    exact ⟨rfl, rfl⟩
  · rw [unpackedFields_subnormal _ positive, unpackedFields_subnormal _ positive]
    exact ⟨pack_subnormal sign positive, rfl⟩
  · rw [unpackedFields_normal _ notBottom notTop, unpackedFields_normal _ notBottom notTop]
    exact ⟨pack_normal sign notTop, rfl⟩

/-! ## Signs and sizes -/

/-- The sign of the model. -/
def signOf (negative : Bool) : Sign :=
  if negative then .negative else .positive

theorem neg_signOf (negative : Bool) : -signOf negative = signOf !negative := by
  cases negative <;> rfl

/-- How a word compares to zero. It stands for zero if nothing but its sign is set; otherwise its sign
tells. -/
theorem compare_zero_unpackedFields (isNumber : exponent = -1#11 → mantissa = 0#52)
    (negative : Bool) :
    (unpackedFields exponent mantissa (signOf negative)).compare (.zero .positive) =
      some (if exponent = 0#11 ∧ mantissa = 0#52 then .eq else if negative then .lt else .gt) := by
  rcases unpackedFields_cases isNumber with
    ⟨rfl, rfl⟩ | ⟨rfl, rfl⟩ | ⟨rfl, positive⟩ | ⟨notBottom, notTop⟩
  · rw [unpackedFields_infinite]
    cases negative <;> decide
  · rw [unpackedFields_zero]
    rfl
  · have nonzero : mantissa ≠ 0#52 := by
      rintro rfl
      exact absurd positive (by decide)
    rw [unpackedFields_subnormal _ positive]
    cases negative <;> simp [signOf, UnpackedFloat.compare, nonzero]
  · rw [unpackedFields_normal _ notBottom notTop]
    cases negative <;> simp [signOf, UnpackedFloat.compare, notBottom]

variable {bits : Nat}

/-- The word with a sign and a size, by its fields. -/
theorem toBitVec_magnitude (negative : Bool) (small : bits < signBit) :
    (UInt64.ofNat (if negative then signBit + bits else bits)).toBitVec =
      packComponents .binary64 (signOf negative) (BitVec.ofNat 11 (bits / leadingOne))
        (BitVec.ofNat 52 (bits % leadingOne)) := by
  apply BitVec.eq_of_toNat_eq
  rw [toNat_packComponents]
  cases negative <;>
    simp [signOf, Sign.toBitVec, signBit, leadingOne] at small ⊢ <;> omega

theorem isNumber_fields (inRange : bits ≤ infinityBits)
    (top : BitVec.ofNat 11 (bits / leadingOne) = -1#11) :
    BitVec.ofNat 52 (bits % leadingOne) = 0#52 := by
  have exponent_eq := congrArg BitVec.toNat top
  apply BitVec.eq_of_toNat_eq
  simp [infinityBits, leadingOne] at inRange exponent_eq ⊢
  omega

theorem ofMagnitude_eq (negative : Bool) (small : bits < signBit) :
    ofMagnitude negative bits =
      .ofModel (.pack (unpackedFields (BitVec.ofNat 11 (bits / leadingOne))
        (BitVec.ofNat 52 (bits % leadingOne)) (signOf negative))) := by
  rw [ofMagnitude, unpackedFields, ← toBitVec_magnitude negative small]
  rfl

theorem unpack_ofMagnitude (negative : Bool) (inRange : bits ≤ infinityBits) :
    (ofMagnitude negative bits).toModel.unpack =
      unpackedFields (BitVec.ofNat 11 (bits / leadingOne)) (BitVec.ofNat 52 (bits % leadingOne))
        (signOf negative) := by
  have small : bits < signBit := Nat.lt_of_le_of_lt inRange (by decide)
  have packed := (pack_unpackedFields (isNumber_fields inRange) (signOf negative)).1
  rw [ofMagnitude_eq negative small]
  show UnpackedFloat.unpack _ (UnpackedFloat.pack _ _) = _
  rw [packed]
  rfl

/-- A double is finite if its size is not that of infinity. -/
theorem isFinite_ofMagnitude (negative : Bool) (inRange : bits ≤ infinityBits) :
    (ofMagnitude negative bits).isFinite = true ↔ bits ≠ infinityBits := by
  have isTop : BitVec.ofNat 11 (bits / leadingOne) = -1#11 ↔ bits = infinityBits := by
    rw [← BitVec.toNat_inj]
    simp [infinityBits, leadingOne] at inRange ⊢
    omega
  show UnpackedFloat.isFinite (ofMagnitude negative bits).toModel.unpack = true ↔ ¬_
  rw [unpack_ofMagnitude negative inRange, ← isTop]
  rcases unpackedFields_cases (isNumber_fields inRange) with
    ⟨top, bottom⟩ | ⟨top, bottom⟩ | ⟨top, positive⟩ | ⟨notBottom, notTop⟩
  · rw [top, bottom, unpackedFields_infinite]
    simp [UnpackedFloat.isFinite]
  · rw [top, bottom, unpackedFields_zero]
    simp [UnpackedFloat.isFinite]
  · rw [top, unpackedFields_subnormal _ positive]
    simp [UnpackedFloat.isFinite]
  · rw [unpackedFields_normal _ notBottom notTop]
    simp only [UnpackedFloat.isFinite, notTop, not_false_eq_true]

/-- The word of a double that was made from a sign and a size. -/
theorem toBits_ofMagnitude (negative : Bool) (inRange : bits ≤ infinityBits) :
    (ofMagnitude negative bits).toBits =
      UInt64.ofNat (if negative then signBit + bits else bits) := by
  have small : bits < signBit := Nat.lt_of_le_of_lt inRange (by decide)
  have packed := (pack_unpackedFields (isNumber_fields inRange) (signOf negative)).1
  rw [ofMagnitude_eq negative small]
  show UInt64.ofBitVec (UnpackedFloat.pack .binary64 (unpackedFields _ _ _)) = _
  rw [packed, ← toBitVec_magnitude negative small]

/-- Negation changes the sign and nothing else. -/
theorem neg_ofMagnitude (negative : Bool) (inRange : bits ≤ infinityBits) :
    -ofMagnitude negative bits = ofMagnitude (!negative) bits := by
  have small : bits < signBit := Nat.lt_of_le_of_lt inRange (by decide)
  have negated := (pack_unpackedFields (isNumber_fields inRange) (signOf negative)).2
  rw [ofMagnitude_eq (!negative) small, ← neg_signOf, ← negated,
    ← unpack_ofMagnitude negative inRange]
  rfl

/-- How a double compares to zero is told by its size and its sign. -/
theorem compare_zero_ofMagnitude (negative : Bool) (inRange : bits ≤ infinityBits) :
    (ofMagnitude negative bits).toModel.unpack.compare (.zero .positive) =
      some (if bits = 0 then .eq else if negative then .lt else .gt) := by
  have noBits : BitVec.ofNat 11 (bits / leadingOne) = 0#11 ∧
      BitVec.ofNat 52 (bits % leadingOne) = 0#52 ↔ bits = 0 := by
    have small : bits / leadingOne < 2 ^ 11 := by
      simp [infinityBits, leadingOne] at inRange ⊢
      omega
    rw [← BitVec.toNat_inj, ← BitVec.toNat_inj]
    simp [leadingOne] at small ⊢
    omega
  rw [unpack_ofMagnitude negative inRange, compare_zero_unpackedFields (isNumber_fields inRange)]
  simp only [noBits]

/-- A double equals zero if its size is zero. -/
theorem beq_zero_ofMagnitude (negative : Bool) (inRange : bits ≤ infinityBits) :
    (ofMagnitude negative bits == 0) = true ↔ bits = 0 := by
  show ((ofMagnitude negative bits).toModel.unpack.compare (.zero .positive) == some .eq) = true ↔ _
  rw [compare_zero_ofMagnitude negative inRange]
  split
  · simp [*]
  · cases negative <;> simp [*]

/-- A double is below zero if it has a size and its sign is set. -/
theorem lt_zero_ofMagnitude (negative : Bool) (inRange : bits ≤ infinityBits) :
    ofMagnitude negative bits < 0 ↔ bits ≠ 0 ∧ negative = true := by
  have lt_iff : ofMagnitude negative bits < 0 ↔
      ((ofMagnitude negative bits).toModel.unpack.compare (.zero .positive) == some .lt) = true :=
    decide_eq_true_iff
  rw [lt_iff, compare_zero_ofMagnitude negative inRange]
  split
  · simp [*]
  · cases negative <;> simp [*]

/-- A double that was made from a sign and a size is a number. -/
theorem isNaN_ofMagnitude (negative : Bool) (inRange : bits ≤ infinityBits) :
    (ofMagnitude negative bits).isNaN = false := by
  show (ofMagnitude negative bits).toModel.unpack.isNaN = false
  rw [unpack_ofMagnitude negative inRange]
  rcases unpackedFields_cases (isNumber_fields inRange) with
    ⟨top, empty⟩ | ⟨bottom, empty⟩ | ⟨bottom, positive⟩ | ⟨notBottom, notTop⟩
  · rw [top, empty, unpackedFields_infinite]
    rfl
  · rw [bottom, empty, unpackedFields_zero]
    rfl
  · rw [bottom, unpackedFields_subnormal _ positive]
    rfl
  · rw [unpackedFields_normal _ notBottom notTop]
    rfl

/-! ## All doubles -/

theorem eq_of_toBits_eq {x y : Float} (same : x.toBits = y.toBits) : x = y := by
  rcases x with ⟨⟨bits, valid⟩⟩
  rcases y with ⟨⟨others, valid'⟩⟩
  cases same
  rfl

/-- A double that is a number has a sign and a size. -/
theorem eq_ofMagnitude {x : Float} (isNumber : x.toBits.toNat % signBit ≤ infinityBits) :
    x = ofMagnitude (signBit ≤ x.toBits.toNat) (x.toBits.toNat % signBit) := by
  apply eq_of_toBits_eq
  rw [toBits_ofMagnitude _ isNumber]
  apply UInt64.toNat_inj.mp
  have small := x.toBits.toNat_lt
  by_cases negative : signBit ≤ x.toBits.toNat
  · simp only [negative, decide_true, if_true, UInt64.toNat_ofNat']
    simp only [signBit] at *
    omega
  · simp only [negative, decide_false, Bool.false_eq_true, if_false, UInt64.toNat_ofNat']
    simp only [signBit] at *
    omega

/-- All doubles that are no numbers are the same. -/
theorem eq_nan {x : Float} (noNumber : infinityBits < x.toBits.toNat % signBit) : x = nan := by
  have exponent_eq : @unpackExponent .binary64 x.toBits.toBitVec = -1#11 := by
    apply BitVec.eq_of_toNat_eq
    simp [unpackExponent, infinityBits, signBit, Nat.shiftRight_eq_div_pow] at noNumber ⊢
    omega
  have nonzero : @unpackMantissa .binary64 x.toBits.toBitVec ≠ 0#52 := by
    intro zero
    have value := congrArg BitVec.toNat zero
    simp [unpackMantissa, infinityBits, signBit] at noNumber value
    omega
  apply eq_of_toBits_eq
  exact UInt64.toBitVec_inj.mp (x.toModel.valid.eq_packedNaN exponent_eq nonzero)

end Formulary.Number
