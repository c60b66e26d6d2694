import Formulary.Formula.Bracket

/-!
# Enclosed texts

A text is enclosed if its round brackets belong together. This file says what a scan for brackets
and for operators does with an enclosed text and what follows it: it pairs the brackets within the
text, and it finds nothing but the characters that stand outside all of them.
-/

namespace Formulary.Formula

open Text

/-- The round brackets of a text belong together, and what stands outside all of them is allowed. -/
inductive Enclosed : (Char → Prop) → List Char → Prop where
  | nil {allowed : Char → Prop} : Enclosed allowed []
  | plain {allowed : Char → Prop} {c : Char} {rest : List Char} :
      c ≠ '(' → c ≠ ')' → allowed c → Enclosed allowed rest → Enclosed allowed (c :: rest)
  | group {allowed : Char → Prop} {inner rest : List Char} :
      Enclosed (fun _ => True) inner → Enclosed allowed rest →
        Enclosed allowed ('(' :: (inner ++ ')' :: rest))

variable {allowed other : Char → Prop} {text first second : List Char}

theorem Enclosed.mono (enclosed : Enclosed allowed text) (weaker : ∀ c, allowed c → other c) :
    Enclosed other text := by
  induction enclosed with
  | nil => exact .nil
  | plain notOpening notClosing isAllowed _ inductionHypothesis =>
    exact .plain notOpening notClosing (weaker _ isAllowed) (inductionHypothesis weaker)
  | group inner _ _ inductionHypothesis => exact .group inner (inductionHypothesis weaker)

theorem Enclosed.anything (enclosed : Enclosed allowed text) : Enclosed (fun _ => True) text :=
  enclosed.mono fun _ _ => trivial

theorem Enclosed.append (left : Enclosed allowed first) (right : Enclosed allowed second) :
    Enclosed allowed (first ++ second) := by
  induction left with
  | nil => exact right
  | plain notOpening notClosing isAllowed _ inductionHypothesis =>
    exact .plain notOpening notClosing isAllowed (inductionHypothesis right)
  | group inner _ _ inductionHypothesis =>
    rw [List.cons_append, List.append_assoc, List.cons_append]
    exact .group inner (inductionHypothesis right)

theorem enclosed_of_forall (each : ∀ c ∈ text, c ≠ '(' ∧ c ≠ ')' ∧ allowed c) :
    Enclosed allowed text := by
  induction text with
  | nil => exact .nil
  | cons c rest inductionHypothesis =>
    rcases each c List.mem_cons_self with ⟨notOpening, notClosing, isAllowed⟩
    exact .plain notOpening notClosing isAllowed
      (inductionHypothesis fun c member => each c (List.mem_cons_of_mem _ member))

/-- A text in brackets. -/
theorem Enclosed.wrap (inner : Enclosed (fun _ => True) text) :
    Enclosed allowed ('(' :: text ++ [')']) :=
  .group inner .nil

theorem byteLength_group (inner rest : List Char) :
    byteLength ('(' :: (inner ++ ')' :: rest)) = byteLength inner + byteLength rest + 2 := by
  simp [Char.utf8Size]
  omega

/-! ## Pairs of brackets -/

theorem bracketPairsFrom_opening (offset : Nat) (opened : List Nat) (rest : List Char) :
    bracketPairsFrom offset opened ('(' :: rest) =
      bracketPairsFrom (offset + 1) (offset :: opened) rest := by
  cases opened <;> rw [bracketPairsFrom, if_pos rfl]

theorem bracketPairsFrom_closing (offset innermost : Nat) (outer : List Nat) (rest : List Char) :
    bracketPairsFrom offset (innermost :: outer) (')' :: rest) =
      (bracketPairsFrom (offset + 1) outer rest).map ((innermost, offset) :: ·) := by
  rw [bracketPairsFrom, if_neg (by decide), if_pos rfl]

theorem bracketPairsFrom_plain {c : Char} (notOpening : c ≠ '(') (notClosing : c ≠ ')')
    (offset : Nat) (opened : List Nat) (rest : List Char) :
    bracketPairsFrom offset opened (c :: rest) =
      bracketPairsFrom (offset + c.utf8Size) opened rest := by
  cases opened <;> rw [bracketPairsFrom, if_neg notOpening, if_neg notClosing]

/-- The brackets of an enclosed text are paired among themselves, whatever is open before it and
follows after it. -/
theorem Enclosed.exists_bracketPairsFrom (enclosed : Enclosed allowed text) (offset : Nat) :
    ∃ pairs, (∀ pair ∈ pairs, offset ≤ pair.1) ∧ ∀ opened after,
      bracketPairsFrom offset opened (text ++ after) =
        (bracketPairsFrom (offset + byteLength text) opened after).map (pairs ++ ·) := by
  induction enclosed generalizing offset with
  | nil => exact ⟨[], by simp, by simp⟩
  | @plain _ c rest notOpening notClosing _ _ inductionHypothesis =>
    rcases inductionHypothesis (offset + c.utf8Size) with ⟨pairs, later, found⟩
    refine ⟨pairs, fun pair member => ?_, fun opened after => ?_⟩
    · have := later pair member
      omega
    · rw [List.cons_append, bracketPairsFrom_plain notOpening notClosing, found, byteLength_cons,
        Nat.add_assoc]
  | @group _ inner rest _ _ innerHypothesis restHypothesis =>
    rcases innerHypothesis (offset + 1) with ⟨within, laterWithin, foundWithin⟩
    rcases restHypothesis (offset + 1 + byteLength inner + 1) with
      ⟨behind, laterBehind, foundBehind⟩
    refine ⟨within ++ (offset, offset + 1 + byteLength inner) :: behind, fun pair member => ?_,
      fun opened after => ?_⟩
    · rcases List.mem_append.mp member with member | member
      · have := laterWithin pair member
        omega
      · rcases List.mem_cons.mp member with rfl | member
        · exact Nat.le_refl _
        · have := laterBehind pair member
          omega
    · have length_eq : offset + byteLength ('(' :: (inner ++ ')' :: rest)) =
          offset + 1 + byteLength inner + 1 + byteLength rest := by
        rw [byteLength_group]
        omega
      rw [List.cons_append, List.append_assoc, List.cons_append, bracketPairsFrom_opening,
        foundWithin, bracketPairsFrom_closing, foundBehind, length_eq]
      simp [Option.map_map, Function.comp_def]

/-- Brackets around a text belong together exactly if nothing follows the closing one. -/
theorem exists_bracketPairs_group (inner : Enclosed (fun _ => True) first)
    (behind : Enclosed (fun _ => True) second) :
    ∃ pairs, bracketPairs ('(' :: (first ++ ')' :: second)) = some pairs ∧
      (isWrapped ('(' :: (first ++ ')' :: second)) pairs = true ↔ second = []) := by
  rcases inner.exists_bracketPairsFrom 1 with ⟨within, laterWithin, foundWithin⟩
  rcases behind.exists_bracketPairsFrom (1 + byteLength first + 1) with
    ⟨others, laterOthers, foundOthers⟩
  have whole := foundOthers [] []
  rw [List.append_nil] at whole
  refine ⟨within ++ (0, 1 + byteLength first) :: (others ++ []), ?_, ?_⟩
  · rw [bracketPairs, bracketPairsFrom_opening, foundWithin, bracketPairsFrom_closing, whole,
      bracketPairsFrom]
    rfl
  · have last_eq : byteLength ('(' :: (first ++ ')' :: second)) - 1 =
        1 + byteLength first + byteLength second := by
      rw [byteLength_group]
      omega
    rw [isWrapped, last_eq]
    simp only [bne_iff_ne, ne_eq, reduceCtorEq, not_false_eq_true, Bool.and_eq_true, true_and,
      List.any_eq_true, beq_iff_eq, Prod.exists, List.append_nil]
    constructor
    · rintro ⟨opening, closing, member, rfl, atEnd⟩
      rcases List.mem_append.mp member with member | member
      · exact absurd (laterWithin _ member) (by simp)
      · rcases List.mem_cons.mp member with same | member
        · exact byteLength_eq_zero (by simp at same; omega)
        · exact absurd (laterOthers _ member) (by simp)
    · rintro rfl
      exact ⟨0, 1 + byteLength first, by simp, rfl, rfl⟩

theorem bracketPairs_plain_not_wrapped {c : Char} (notOpening : c ≠ '(') (notClosing : c ≠ ')')
    (behind : Enclosed allowed second) :
    ∃ pairs, bracketPairs (c :: second) = some pairs ∧ isWrapped (c :: second) pairs = false := by
  rcases behind.exists_bracketPairsFrom (0 + c.utf8Size) with ⟨others, laterOthers, foundOthers⟩
  have whole := foundOthers [] []
  rw [List.append_nil] at whole
  refine ⟨others ++ [], ?_, ?_⟩
  · rw [bracketPairs, bracketPairsFrom_plain notOpening notClosing, whole, bracketPairsFrom]
    rfl
  · have := c.utf8Size_pos
    simp [isWrapped]
    intro opening closing member isFirst
    have := laterOthers _ member
    omega

/-! ## Places outside all brackets -/

/-- The character before the place that follows a text. -/
def lastOr (before : Option Char) (text : List Char) : Option Char :=
  text.getLast?.or before

theorem lastOr_cons (before : Option Char) (c : Char) (text : List Char) :
    lastOr before (c :: text) = lastOr (some c) text := by
  rw [lastOr, lastOr, List.getLast?_cons, Option.or_some]
  cases text.getLast? <;> rfl

theorem lastOr_append (before : Option Char) (first second : List Char) :
    lastOr before (first ++ second) = lastOr (lastOr before first) second := by
  simp [lastOr, List.getLast?_append, Option.or_assoc]

theorem outerPlacesFrom_plain {c target : Char} (notOpening : c ≠ '(') (notClosing : c ≠ ')')
    (offset depth : Nat) (before : Option Char) (rest : List Char) :
    outerPlacesFrom target offset depth before (c :: rest) =
      if c = target ∧ depth = 0 then
        ⟨offset, before⟩ :: outerPlacesFrom target (offset + c.utf8Size) depth (some c) rest
      else outerPlacesFrom target (offset + c.utf8Size) depth (some c) rest := by
  rw [outerPlacesFrom, if_neg notOpening, if_neg notClosing]

/-- In an enclosed text there is no place of a target within brackets, and none outside them if the
target is not allowed there. -/
theorem Enclosed.outerPlacesFrom_append (enclosed : Enclosed allowed text) {target : Char}
    {depth : Nat} (hidden : 0 < depth ∨ ∀ c, allowed c → c ≠ target) (offset : Nat)
    (before : Option Char) (after : List Char) :
    outerPlacesFrom target offset depth before (text ++ after) =
      outerPlacesFrom target (offset + byteLength text) depth (lastOr before text) after := by
  induction enclosed generalizing offset depth before after with
  | nil => simp [lastOr]
  | @plain allowed c rest notOpening notClosing isAllowed _ inductionHypothesis =>
    have noPlace : ¬(c = target ∧ depth = 0) := by
      rintro ⟨isTarget, isZero⟩
      rcases hidden with deep | different
      · omega
      · exact different c isAllowed isTarget
    rw [List.cons_append, outerPlacesFrom_plain notOpening notClosing, if_neg noPlace,
      inductionHypothesis hidden, byteLength_cons, lastOr_cons, Nat.add_assoc]
  | @group allowed inner rest _ _ innerHypothesis restHypothesis =>
    have length_eq : offset + byteLength ('(' :: (inner ++ ')' :: rest)) =
        offset + 1 + byteLength inner + 1 + byteLength rest := by
      rw [byteLength_group]
      omega
    have last_eq : lastOr before ('(' :: (inner ++ ')' :: rest)) = lastOr (some ')') rest := by
      rw [lastOr_cons, lastOr_append, lastOr_cons]
    rw [List.cons_append, List.append_assoc, List.cons_append, outerPlacesFrom, if_pos rfl,
      innerHypothesis (.inl (Nat.succ_pos depth)), outerPlacesFrom, if_neg (by decide), if_pos rfl,
      Nat.succ_sub_one, restHypothesis hidden, length_eq, last_eq]

/-! ## Operators between operands -/

/-- The offsets at which an operator stands between two operands, in a text that begins outside all
brackets and behind this character. -/
def binaryOffsetsFrom (operator : Char) (offset : Nat) (before : Option Char) (text : List Char) :
    List Nat :=
  ((outerPlacesFrom operator offset 0 before text).filter fun place => !place.isSign).map (·.offset)

theorem binaryOffsets_eq (text : List Char) (operator : Char) :
    binaryOffsets text operator = binaryOffsetsFrom operator 0 none text :=
  rfl

@[simp]
theorem binaryOffsetsFrom_nil (operator : Char) (offset : Nat) (before : Option Char) :
    binaryOffsetsFrom operator offset before [] = [] :=
  rfl

theorem binaryOffsetsFrom_append {operator : Char} (enclosed : Enclosed allowed first)
    (absent : ∀ c, allowed c → c ≠ operator) (offset : Nat) (before : Option Char) :
    binaryOffsetsFrom operator offset before (first ++ second) =
      binaryOffsetsFrom operator (offset + byteLength first) (lastOr before first) second := by
  rw [binaryOffsetsFrom, enclosed.outerPlacesFrom_append (.inr absent), binaryOffsetsFrom]

theorem binaryOffsetsFrom_cons {c operator : Char} (notOpening : c ≠ '(') (notClosing : c ≠ ')')
    (offset : Nat) (before : Option Char) (rest : List Char) :
    binaryOffsetsFrom operator offset before (c :: rest) =
      if c = operator ∧ (Place.mk offset before).isSign = false then
        offset :: binaryOffsetsFrom operator (offset + c.utf8Size) (some c) rest
      else binaryOffsetsFrom operator (offset + c.utf8Size) (some c) rest := by
  rw [binaryOffsetsFrom, outerPlacesFrom_plain notOpening notClosing]
  by_cases isOperator : c = operator
  · cases isSign : (Place.mk offset before).isSign <;> simp [isOperator, isSign, binaryOffsetsFrom]
  · simp [isOperator, binaryOffsetsFrom]

end Formulary.Formula
