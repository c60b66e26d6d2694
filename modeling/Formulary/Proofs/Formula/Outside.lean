import Formulary.Proofs.Formula.Pairing
import Mathlib.Order.Bounds.Basic

/-!
# What stands outside all brackets

The scans for a character and for a call of the logarithm count the open brackets and pass over a
closing bracket that closes none. They find a place if every bracket opened before it is closed
before it. In a balanced text these are the places that no pair of brackets encloses. The main
statement, `brackets_agree`, puts this beside the pairs of brackets themselves.
-/

namespace Formulary.Formula

open Text

variable {text left right part rest behind : List Char} {offset position opened depth : Nat}
  {c target : Char} {before : Option Char} {pairs : List (Nat × Nat)}

/-! ## Places behind which no bracket is open -/

/-- A text stands at a position behind which, given the brackets open at the start, none is open. -/
def OccursFree (opened : Nat) (text : List Char) (position : Nat) (part : List Char) : Prop :=
  ∃ left right, text = left ++ (part ++ right) ∧ byteLength left = position ∧
    LeavesNoneOpen opened left

theorem not_occursFree_nil (nonempty : part ≠ []) : ¬OccursFree opened [] position part := by
  rintro ⟨left, right, text_eq, -⟩
  simp [nonempty] at text_eq

theorem occursFree_cons_iff :
    OccursFree opened (c :: rest) position part ↔
      position = 0 ∧ opened = 0 ∧ part <+: c :: rest ∨
        ∃ later, position = c.utf8Size + later ∧
          OccursFree (openBehind opened c) rest later part := by
  constructor
  · rintro ⟨left, right, text_eq, rfl, noneOpen⟩
    cases left with
    | nil => exact .inl ⟨rfl, leavesNoneOpen_nil_iff.mp noneOpen, right, text_eq.symm⟩
    | cons first left =>
      cases text_eq
      exact .inr ⟨byteLength left, rfl, left, right, rfl, rfl, leavesNoneOpen_cons_iff.mp noneOpen⟩
  · rintro (⟨rfl, rfl, right, text_eq⟩ | ⟨later, rfl, left, right, rfl, rfl, noneOpen⟩)
    · exact ⟨[], right, text_eq.symm, rfl, leavesNoneOpen_nil_iff.mpr rfl⟩
    · exact ⟨c :: left, right, rfl, rfl, leavesNoneOpen_cons_iff.mpr noneOpen⟩

/-- The positions from an offset on at which a text stands with no bracket open. -/
def freePositions (offset opened : Nat) (text part : List Char) : Set Nat :=
  {position | ∃ later, position = offset + later ∧ OccursFree opened text later part}

theorem freePositions_nil (nonempty : part ≠ []) : freePositions offset opened [] part = ∅ := by
  ext position
  simp [freePositions, not_occursFree_nil nonempty]

theorem mem_freePositions_cons_iff :
    position ∈ freePositions offset opened (c :: rest) part ↔
      position = offset ∧ opened = 0 ∧ part <+: c :: rest ∨
        position ∈ freePositions (offset + c.utf8Size) (openBehind opened c) rest part := by
  simp only [freePositions, Set.mem_ofPred_eq, occursFree_cons_iff]
  constructor
  · rintro ⟨later, rfl, ⟨rfl, isZero, isPrefix⟩ | ⟨further, rfl, occurs⟩⟩
    · exact .inl ⟨rfl, isZero, isPrefix⟩
    · exact .inr ⟨further, (Nat.add_assoc _ _ _).symm, occurs⟩
  · rintro (⟨rfl, isZero, isPrefix⟩ | ⟨further, rfl, occurs⟩)
    · exact ⟨0, rfl, .inl ⟨rfl, isZero, isPrefix⟩⟩
    · exact ⟨c.utf8Size + further, Nat.add_assoc _ _ _, .inr ⟨further, rfl, occurs⟩⟩

theorem le_of_mem_freePositions (member : position ∈ freePositions offset opened text part) :
    offset ≤ position := by
  rcases member with ⟨later, rfl, -⟩
  exact Nat.le_add_right _ _

/-! ## What the scans find -/

theorem outerPlacesFrom_cons (notOpening : target ≠ '(') (notClosing : target ≠ ')') :
    outerPlacesFrom target offset depth before (c :: rest) =
      if c = target ∧ depth = 0 then
        ⟨offset, before⟩ ::
          outerPlacesFrom target (offset + c.utf8Size) (openBehind depth c) (some c) rest
      else outerPlacesFrom target (offset + c.utf8Size) (openBehind depth c) (some c) rest := by
  by_cases isOpening : c = '('
  · subst isOpening
    rw [outerPlacesFrom, if_pos rfl, if_neg fun both => notOpening both.1.symm]
    rfl
  by_cases isClosing : c = ')'
  · subst isClosing
    rw [outerPlacesFrom, if_neg isOpening, if_pos rfl, if_neg fun both => notClosing both.1.symm]
    rfl
  · rw [outerPlacesFrom_plain isOpening isClosing, openBehind, if_neg isOpening, if_neg isClosing]

theorem mem_offsets_outerPlacesFrom_iff (notOpening : target ≠ '(') (notClosing : target ≠ ')') :
    position ∈ (outerPlacesFrom target offset depth before text).map (·.offset) ↔
      position ∈ freePositions offset depth text [target] := by
  induction text generalizing offset depth before with
  | nil => simp [outerPlacesFrom, freePositions_nil]
  | cons c rest inductionHypothesis =>
    have later := @inductionHypothesis (offset + c.utf8Size) (openBehind depth c) (some c)
    rw [outerPlacesFrom_cons notOpening notClosing, mem_freePositions_cons_iff, ← later]
    by_cases isPlace : c = target ∧ depth = 0
    · rcases isPlace with ⟨rfl, rfl⟩
      simp
    · have notFirst : ¬(position = offset ∧ depth = 0 ∧ [target] <+: c :: rest) := by
        rintro ⟨-, isZero, isPrefix⟩
        exact isPlace ⟨(List.cons_prefix_cons.mp isPrefix).1.symm, isZero⟩
      rw [if_neg isPlace, or_iff_right notFirst]

/-- The places of a character are found from left to right. -/
theorem pairwise_outerPlacesFrom (notOpening : target ≠ '(') (notClosing : target ≠ ')') :
    ((outerPlacesFrom target offset depth before text).map (·.offset)).Pairwise (· < ·) := by
  induction text generalizing offset depth before with
  | nil => exact .nil
  | cons c rest inductionHypothesis =>
    rw [outerPlacesFrom_cons notOpening notClosing]
    split
    · apply List.Pairwise.cons _ inductionHypothesis
      intro later member
      rw [mem_offsets_outerPlacesFrom_iff notOpening notClosing] at member
      exact Nat.lt_of_lt_of_le (Nat.lt_add_of_pos_right c.utf8Size_pos)
        (le_of_mem_freePositions member)
    · exact inductionHypothesis

/-- The characters with which a call of the logarithm begins. -/
def callText : List Char :=
  ['l', 'o', 'g', '(']

theorem outerLogarithmFrom_cons :
    outerLogarithmFrom offset depth (c :: rest) =
      if depth = 0 ∧ callText <+: c :: rest then some offset
      else outerLogarithmFrom (offset + c.utf8Size) (openBehind depth c) rest := by
  by_cases isOpening : c = '('
  · subst isOpening
    rw [outerLogarithmFrom, if_pos rfl, if_neg]
    · rfl
    · simp [callText]
  by_cases isClosing : c = ')'
  · subst isClosing
    rw [outerLogarithmFrom, if_neg isOpening, if_pos rfl, if_neg]
    · rfl
    · simp [callText]
  · have same : (c = 'l' ∧ depth = 0 ∧ ['o', 'g', '('].isPrefixOf rest = true) ↔
        depth = 0 ∧ callText <+: c :: rest := by
      rw [callText, List.cons_prefix_cons, List.isPrefixOf_iff_prefix, and_left_comm,
        eq_comm (a := c)]
    rw [outerLogarithmFrom, if_neg isOpening, if_neg isClosing, openBehind, if_neg isOpening,
      if_neg isClosing, if_congr same rfl rfl]

/-- The first call of the logarithm is found. -/
theorem outerLogarithmFrom_eq_some_iff :
    outerLogarithmFrom offset depth text = some position ↔
      IsLeast (freePositions offset depth text callText) position := by
  induction text generalizing offset depth with
  | nil => simp [outerLogarithmFrom, freePositions_nil, callText, IsLeast]
  | cons c rest inductionHypothesis =>
    rw [outerLogarithmFrom_cons]
    split
    · rename_i isCall
      have here : offset ∈ freePositions offset depth (c :: rest) callText :=
        mem_freePositions_cons_iff.mpr (.inl ⟨rfl, isCall⟩)
      constructor
      · rintro ⟨⟩
        exact ⟨here, fun _ => le_of_mem_freePositions⟩
      · rintro ⟨member, least⟩
        rw [Nat.le_antisymm (le_of_mem_freePositions member) (least here)]
    · rename_i noCall
      have same : freePositions offset depth (c :: rest) callText =
          freePositions (offset + c.utf8Size) (openBehind depth c) rest callText := by
        ext other
        rw [mem_freePositions_cons_iff, or_iff_right fun found => noCall found.2]
      rw [inductionHypothesis, same]

/-! ## Brackets before a position -/

/-- Every bracket that is opened before a position is closed before it. -/
def ClosedBefore (text : List Char) (position : Nat) : Prop :=
  ∀ opening, opening < position → OccursAt text opening ['('] →
    ∃ closing, Paired text opening closing ∧ closing < position

/-- No pair of brackets encloses the position. -/
def OutsideOf (pairs : List (Nat × Nat)) (position : Nat) : Prop :=
  ∀ pair ∈ pairs, ¬(pair.1 < position ∧ position < pair.2)

theorem leavesNoneOpen_iff_closedBefore :
    LeavesNoneOpen 0 left ↔ ClosedBefore (left ++ behind) (byteLength left) := by
  constructor
  · rintro ⟨-, own⟩ opening earlier ⟨before, after, text_eq, rfl⟩
    rcases exists_of_append_eq_append text_eq.symm earlier.le with ⟨between, rfl, after_eq⟩
    cases between with
    | nil => simp at earlier
    | cons c between =>
      cases after_eq
      rcases own before between rfl with ⟨inner, right, rfl, balanced⟩
      refine ⟨_, ⟨before, inner, right ++ behind, by simp, rfl, rfl, ?_⟩, ?_⟩
      · exact balancedAfter_zero_iff.mp balanced
      · simp [Char.utf8Size]
        omega
  · intro closed
    constructor
    · intro level impossible
      exact absurd impossible (Nat.not_lt_zero level)
    · rintro before after rfl
      have longer :
          byteLength (before ++ '(' :: after) = byteLength before + 1 + byteLength after := by
        rw [byteLength_append, byteLength_cons_of_small rfl]
        omega
      rcases closed (byteLength before) (by omega) ⟨before, after ++ behind, by simp, rfl⟩ with
        ⟨closing, ⟨before', inner, right, text_eq, equal, rfl, balanced⟩, inLeft⟩
      -- The closing bracket stands before the position, so it is found in `after`.
      rw [List.append_assoc] at text_eq
      have rest_eq := (append_inj_of_byteLength text_eq equal.symm).2
      rw [List.cons_append, List.cons.injEq, List.append_cons] at rest_eq
      have shorter : byteLength (inner ++ [')']) ≤ byteLength after := by
        rw [byteLength_append, byteLength_cons_of_small rfl, byteLength_nil]
        omega
      rcases exists_of_append_eq_append rest_eq.2.symm shorter with ⟨right', rfl, -⟩
      exact ⟨inner, right', by simp, balancedAfter_zero_iff.mpr balanced⟩

theorem occursFree_zero_iff :
    OccursFree 0 text position part ↔ OccursAt text position part ∧ ClosedBefore text position := by
  constructor
  · rintro ⟨left, right, rfl, rfl, noneOpen⟩
    exact ⟨occursAt_append left part right, leavesNoneOpen_iff_closedBefore.mp noneOpen⟩
  · rintro ⟨⟨left, right, rfl, rfl⟩, closed⟩
    exact ⟨left, right, rfl, rfl, leavesNoneOpen_iff_closedBefore.mpr closed⟩

theorem freePositions_zero :
    freePositions 0 0 text part =
      {position | OccursAt text position part ∧ ClosedBefore text position} := by
  ext position
  simp [freePositions, occursFree_zero_iff]

/-- In a text of pairs, a position at which no bracket is closed is outside of all pairs if and only
if every bracket opened before it is closed before it. -/
theorem IsPairing.closedBefore_iff (pairing : IsPairing text pairs)
    (occurs : OccursAt text position [c]) (notClosing : c ≠ ')') :
    ClosedBefore text position ↔ OutsideOf pairs position := by
  constructor
  · rintro closed ⟨opening, closing⟩ member ⟨earlier, later⟩
    have paired := (pairing.mem_iff _ _).mp member
    rcases closed opening earlier paired.occursAt_opening with ⟨other, otherPaired, otherEarlier⟩
    rw [paired.closing_unique otherPaired] at later
    exact Nat.lt_asymm later otherEarlier
  · intro outside opening earlier isOpening
    rcases pairing.opening opening isOpening with ⟨⟨_, closing⟩, ⟨member, rfl⟩, -⟩
    have paired := (pairing.mem_iff _ _).mp member
    have notLater := outside _ member
    have notHere : closing ≠ position := by
      rintro rfl
      exact notClosing (occurs.eq paired.occursAt_closing)
    exact ⟨closing, paired, by omega⟩

/-! ## Agreement -/

/-- The scans find what stands at the positions that count as outside: all places of a character,
from left to right, and the first call of the logarithm. -/
structure FindsOutside (text : List Char) (outside : Nat → Prop) : Prop where
  inOrder : ∀ target, target ≠ '(' → target ≠ ')' →
    ((outerPlaces text target).map (·.offset)).Pairwise (· < ·)
  places : ∀ target, target ≠ '(' → target ≠ ')' → ∀ offset,
    offset ∈ (outerPlaces text target).map (·.offset) ↔
      OccursAt text offset [target] ∧ outside offset
  logarithm : ∀ offset, outerLogarithm? text = some offset ↔
    IsLeast {position | OccursAt text position callText ∧ outside position} offset

theorem findsOutside_closedBefore (text : List Char) : FindsOutside text (ClosedBefore text) where
  inOrder target notOpening notClosing := pairwise_outerPlacesFrom notOpening notClosing
  places target notOpening notClosing offset := by
    rw [outerPlaces, mem_offsets_outerPlacesFrom_iff notOpening notClosing, freePositions_zero]
    rfl
  logarithm offset := by
    rw [outerLogarithm?, outerLogarithmFrom_eq_some_iff, freePositions_zero]

theorem IsPairing.findsOutside (pairing : IsPairing text pairs) :
    FindsOutside text (OutsideOf pairs) where
  inOrder := (findsOutside_closedBefore text).inOrder
  places target notOpening notClosing offset := by
    rw [(findsOutside_closedBefore text).places target notOpening notClosing]
    exact and_congr_right fun occurs => pairing.closedBefore_iff occurs notClosing
  logarithm offset := by
    have same : {position | OccursAt text position callText ∧ ClosedBefore text position} =
        {position | OccursAt text position callText ∧ OutsideOf pairs position} := by
      ext position
      exact and_congr_right fun occurs => pairing.closedBefore_iff occurs.head (by decide)
    rw [(findsOutside_closedBefore text).logarithm, same]

theorem isWrapped_iff_mem :
    isWrapped text pairs = true ↔ text ≠ [] ∧ (0, byteLength text - 1) ∈ pairs := by
  simp only [isWrapped, Bool.and_eq_true, bne_iff_ne, List.any_eq_true, beq_iff_eq]
  apply and_congr_right'
  constructor
  · rintro ⟨⟨opening, closing⟩, member, rfl, rfl⟩
    exact member
  · intro member
    exact ⟨_, member, rfl, rfl⟩

/-- A text is wrapped if it begins with a bracket that its last byte closes. -/
theorem IsPairing.isWrapped_iff (pairing : IsPairing text pairs) :
    isWrapped text pairs = true ↔
      ∃ rest, text = '(' :: rest ∧ Paired text 0 (byteLength text - 1) := by
  have beginsWith : Paired text 0 (byteLength text - 1) → ∃ rest, text = '(' :: rest := by
    rintro ⟨left, inner, right, rfl, isStart, -, -⟩
    rw [byteLength_eq_zero isStart]
    exact ⟨_, rfl⟩
  rw [isWrapped_iff_mem, pairing.mem_iff]
  constructor
  · rintro ⟨-, paired⟩
    rcases beginsWith paired with ⟨rest, text_eq⟩
    exact ⟨rest, text_eq, paired⟩
  · rintro ⟨rest, rfl, paired⟩
    exact ⟨List.cons_ne_nil _ _, paired⟩

/-- The scans for pairs, for characters and for calls of the logarithm agree on what brackets
enclose. -/
theorem brackets_agree (text : List Char) :
    ((bracketPairs text).isSome ↔ Balanced text) ∧
      FindsOutside text (ClosedBefore text) ∧
      ∀ pairs, bracketPairs text = some pairs →
        IsPairing text pairs ∧ FindsOutside text (OutsideOf pairs) ∧
          (isWrapped text pairs = true ↔
            ∃ rest, text = '(' :: rest ∧ Paired text 0 (byteLength text - 1)) := by
  refine ⟨isSome_bracketPairs_iff, findsOutside_closedBefore text, ?_⟩
  intro pairs found
  have pairing := isPairing_of_bracketPairs found
  exact ⟨pairing, pairing.findsOutside, pairing.isWrapped_iff⟩

end Formulary.Formula
