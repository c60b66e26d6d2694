import Formulary.Proofs.Formula.Outside
import Formulary.Proofs.Formula.Parse

/-!
# The slices that evaluation takes

To evaluate a text, slices of it are taken at offsets that the scans find: inside the brackets that
wrap it, on both sides of an operator, behind a sign, and on both sides of the semicolon between the
brackets of a logarithm. The scans look for characters of one byte, so these offsets fall between
characters, whatever else stands in the text. Every text can be taken apart in this way, and its
evaluation ends with a value or with one of three faults (`evaluation_is_safe`).
-/

namespace Formulary.Formula

open Text

variable {policy : SplitPolicy} {text left right part : List Char} {shape : Shape}
  {parts : List (List Char)} {pairs : List (Nat × Nat)} {offset opening closing start stop : Nat}
  {c : Char}

/-! ## Slices in range -/

/-- The slice between two offsets is in range, and it begins and ends between characters. -/
structure IsSlice (text : List Char) (start stop : Nat) : Prop where
  ordered : start ≤ stop
  inRange : stop ≤ byteLength text
  begins : IsBoundary text start
  ends : IsBoundary text stop

theorem isSlice_of_isBoundary (ordered : start ≤ stop) (begins : IsBoundary text start)
    (ends : IsBoundary text stop) : IsSlice text start stop :=
  ⟨ordered, ends.le_byteLength, begins, ends⟩

theorem isSlice_iff : IsSlice text start stop ↔ ∃ middle, slice? text start stop = some middle := by
  rw [← Option.isSome_iff_exists, isSome_slice?_iff]
  constructor
  · intro isSlice
    exact ⟨isSlice.ordered, isSlice.begins, isSlice.ends⟩
  · rintro ⟨ordered, begins, ends⟩
    exact isSlice_of_isBoundary ordered begins ends

theorem isSlice_before (occurs : OccursAt text offset [c]) : IsSlice text 0 offset :=
  isSlice_of_isBoundary (Nat.zero_le offset) (isBoundary_zero text) occurs.isBoundary.1

theorem isSlice_behind (occurs : OccursAt text offset [c]) (small : c.utf8Size = 1) :
    IsSlice text (offset + 1) (byteLength text) := by
  have behind := occurs.isBoundary.2
  rw [byteLength_cons_of_small small] at behind
  exact isSlice_of_isBoundary behind.le_byteLength behind (isBoundary_byteLength text)

theorem Paired.isSlice (paired : Paired text opening closing) :
    IsSlice text (opening + 1) closing :=
  isSlice_of_isBoundary paired.lt paired.occursAt_opening.isBoundary.2
    paired.occursAt_closing.isBoundary.1

/-! ## The slices of a text -/

/-- The text may be split at this offset, at an operator or at a `^`. -/
inductive SplitsAt (policy : SplitPolicy) (text : List Char) (offset : Nat) : Prop where
  | operator {preferred other operator : Operator} :
      splitPoint? policy text preferred other = some (offset, operator) →
        SplitsAt policy text offset
  | power : (binaryOffsets text '^').head? = some offset → SplitsAt policy text offset

/-- The slices that evaluation may take of a text. -/
inductive Takes (policy : SplitPolicy) (text : List Char) : (start stop : Nat) → Prop where
  /-- What stands inside the brackets that wrap the text. -/
  | inner {pairs : List (Nat × Nat)} : bracketPairs text = some pairs →
      isWrapped text pairs = true → Takes policy text 1 (byteLength text - 1)
  /-- What stands before an operator. -/
  | before {offset : Nat} : SplitsAt policy text offset → Takes policy text 0 offset
  /-- What stands behind an operator. -/
  | behind {offset : Nat} : SplitsAt policy text offset →
      Takes policy text (offset + 1) (byteLength text)
  /-- What stands behind a sign. -/
  | unsigned {sign : Char} {rest : List Char} : sign = '-' ∨ sign = '+' → text = sign :: rest →
      Takes policy text 1 (byteLength text)
  /-- What stands between the brackets of a logarithm. -/
  | arguments {pairs : List (Nat × Nat)} {offset closing : Nat} : bracketPairs text = some pairs →
      outerLogarithm? text = some offset → (offset + 3, closing) ∈ pairs →
        Takes policy text (offset + 4) closing
  /-- What stands before a semicolon in a slice. -/
  | argument {start stop : Nat} {left right : List Char} : Takes policy text start stop →
      slice? text start stop = some (left ++ ';' :: right) →
        Takes policy text start (start + byteLength left)
  /-- What stands behind a semicolon in a slice. -/
  | base {start stop : Nat} {left right : List Char} : Takes policy text start stop →
      slice? text start stop = some (left ++ ';' :: right) →
        Takes policy text (start + byteLength left + 1) stop

theorem occursAt_of_mem_binaryOffsets (notOpening : c ≠ '(') (notClosing : c ≠ ')')
    (member : offset ∈ binaryOffsets text c) : OccursAt text offset [c] := by
  rcases List.mem_map.mp member with ⟨place, isPlace, rfl⟩
  have found := List.mem_map_of_mem (f := (·.offset)) (List.mem_of_mem_filter isPlace)
  exact (((findsOutside_closedBefore text).places c notOpening notClosing place.offset).mp found).1

theorem mem_binaryOffsets_of_splitPoint? {preferred other operator : Operator}
    (found : splitPoint? policy text preferred other = some (offset, operator)) :
    offset ∈ binaryOffsets text operator.symbol := by
  cases policy with
  | legacy =>
    simp only [splitPoint?] at found
    split at found
    · rename_i isHead
      cases found
      exact List.mem_of_head? isHead
    · rename_i isHead
      cases found
      exact List.mem_of_head? isHead
    · cases found
  | leftAssociative =>
    simp only [splitPoint?] at found
    split at found
    · rename_i isLast isOtherLast
      split at found
      · cases found
        exact List.mem_of_getLast? isLast
      · cases found
        exact List.mem_of_getLast? isOtherLast
    · rename_i isLast _
      cases found
      exact List.mem_of_getLast? isLast
    · rename_i isOtherLast
      cases found
      exact List.mem_of_getLast? isOtherLast
    · cases found

/-- A text is split at a character of one byte. -/
theorem SplitsAt.exists_occursAt (splits : SplitsAt policy text offset) :
    ∃ c, c.utf8Size = 1 ∧ OccursAt text offset [c] := by
  cases splits with
  | @operator _ _ operator found =>
    have member := mem_binaryOffsets_of_splitPoint? found
    cases operator with
    | add => exact ⟨'+', rfl, occursAt_of_mem_binaryOffsets (by decide) (by decide) member⟩
    | subtract => exact ⟨'-', rfl, occursAt_of_mem_binaryOffsets (by decide) (by decide) member⟩
    | multiply => exact ⟨'*', rfl, occursAt_of_mem_binaryOffsets (by decide) (by decide) member⟩
    | divide => exact ⟨'/', rfl, occursAt_of_mem_binaryOffsets (by decide) (by decide) member⟩
  | power isHead =>
    have member := List.mem_of_head? isHead
    exact ⟨'^', rfl, occursAt_of_mem_binaryOffsets (by decide) (by decide) member⟩

theorem utf8Size_of_isSign (isSign : c = '-' ∨ c = '+') : c.utf8Size = 1 := by
  rcases isSign with rfl | rfl <;> rfl

/-- A slice is divided at a semicolon. -/
theorem slice?_of_semicolon (sliced : slice? text start stop = some (left ++ ';' :: right)) :
    slice? text start (start + byteLength left) = some left ∧
      slice? text (start + byteLength left + 1) stop = some right := by
  rcases exists_of_slice? sliced with ⟨before, after, rfl, rfl, rfl⟩
  constructor
  · have cut := slice?_append before left (';' :: right ++ after)
    rwa [← List.append_assoc left] at cut
  · have cut := slice?_append (before ++ (left ++ [';'])) right after
    have small := byteLength_cons_of_small (c := ';') rfl
    simp only [List.append_assoc, List.cons_append, List.nil_append, byteLength_append, small,
      byteLength_nil] at cut ⊢
    convert cut using 2 <;> omega

/-- Every slice that evaluation takes is in range and falls between characters. -/
theorem Takes.isSlice (takes : Takes policy text start stop) : IsSlice text start stop := by
  cases takes with
  | inner found wrapped =>
    rcases (isPairing_of_bracketPairs found).isWrapped_iff.mp wrapped with ⟨-, -, paired⟩
    exact paired.isSlice
  | before splits =>
    rcases splits.exists_occursAt with ⟨c, -, occurs⟩
    exact isSlice_before occurs
  | behind splits =>
    rcases splits.exists_occursAt with ⟨c, small, occurs⟩
    exact isSlice_behind occurs small
  | @unsigned sign rest isSign text_eq =>
    have occurs : OccursAt text 0 [sign] := ⟨[], rest, text_eq, rfl⟩
    exact isSlice_behind occurs (utf8Size_of_isSign isSign)
  | arguments found _ member => exact ((mem_bracketPairs_iff found).mp member).isSlice
  | argument _ sliced => exact isSlice_iff.mpr ⟨_, (slice?_of_semicolon sliced).1⟩
  | base _ sliced => exact isSlice_iff.mpr ⟨_, (slice?_of_semicolon sliced).2⟩

theorem Takes.exists_slice? (takes : Takes policy text start stop) :
    ∃ middle, slice? text start stop = some middle :=
  isSlice_iff.mp takes.isSlice

/-! ## How a text is taken apart -/

/-- The other text is a slice that evaluation takes of the text. -/
def IsTaken (policy : SplitPolicy) (text part : List Char) : Prop :=
  ∃ start stop, Takes policy text start stop ∧ slice? text start stop = some part

/-- The parts of a text that has this shape are slices that evaluation takes of it. -/
def TakesParts (policy : SplitPolicy) (text : List Char) (shape : Shape) : Prop :=
  ∀ parts, shape.parts? = some parts → ∀ part ∈ parts, IsTaken policy text part

theorem takesParts_malformed : TakesParts policy text .malformed := nofun

theorem takesParts_nil (parts_eq : shape.parts? = some []) : TakesParts policy text shape := by
  intro parts other_eq
  cases parts_eq.symm.trans other_eq
  exact nofun

theorem takesParts_one (parts_eq : shape.parts? = some [part]) (taken : IsTaken policy text part) :
    TakesParts policy text shape := by
  intro parts other_eq
  cases parts_eq.symm.trans other_eq
  simpa using taken

theorem takesParts_two (parts_eq : shape.parts? = some [left, right])
    (leftTaken : IsTaken policy text left) (rightTaken : IsTaken policy text right) :
    TakesParts policy text shape := by
  intro parts other_eq
  cases parts_eq.symm.trans other_eq
  simpa using ⟨leftTaken, rightTaken⟩

theorem exists_of_splitsAt (splits : SplitsAt policy text offset) :
    ∃ left right, cutAt? text offset = some (left, right) ∧
      IsTaken policy text left ∧ IsTaken policy text right := by
  rcases (Takes.before splits).exists_slice? with ⟨left, leftCut⟩
  rcases (Takes.behind splits).exists_slice? with ⟨right, rightCut⟩
  have cut : cutAt? text offset = some (left, right) := by simp [cutAt?, leftCut, rightCut]
  exact ⟨left, right, cut, ⟨_, _, .before splits, leftCut⟩, ⟨_, _, .behind splits, rightCut⟩⟩

theorem exists_of_split? {cut : Option Shape} (split_eq : split? policy text = some cut) :
    ∃ shape, cut = some shape ∧ TakesParts policy text shape := by
  rw [split?] at split_eq
  split at split_eq
  · rename_i offset operator found
    have splits : SplitsAt policy text offset := by
      rcases (Option.orElse_eq_some _ _ _).mp found with lower | ⟨-, higher⟩
      · exact .operator lower
      · exact .operator higher
    rcases exists_of_splitsAt splits with ⟨left, right, cutAt, leftTaken, rightTaken⟩
    rw [cutAt] at split_eq
    exact ⟨_, (Option.some.inj split_eq).symm, takesParts_two rfl leftTaken rightTaken⟩
  · rcases Option.map_eq_some_iff.mp split_eq with ⟨offset, isHead, rfl⟩
    have splits : SplitsAt policy text offset := .power isHead
    rcases exists_of_splitsAt splits with ⟨base, exponent, cutAt, baseTaken, exponentTaken⟩
    rw [cutAt]
    exact ⟨_, rfl, takesParts_two rfl baseTaken exponentTaken⟩

theorem exists_of_cutLogarithm (found : bracketPairs text = some pairs)
    (isCall : outerLogarithm? text = some offset) :
    ∃ shape, cutLogarithm text offset pairs = some shape ∧ TakesParts policy text shape := by
  simp only [cutLogarithm]
  split
  · exact ⟨_, rfl, takesParts_malformed⟩
  rename_i opening closing isPair
  split
  · have member := List.mem_of_find?_eq_some isPair
    have opening_eq : opening = offset + 3 := by simpa using List.find?_some isPair
    rw [opening_eq] at member
    have takes : Takes policy text (offset + 4) closing := .arguments found isCall member
    rcases takes.exists_slice? with ⟨arguments, sliced⟩
    rw [sliced, Option.map_some]
    cases isSplit : splitArguments? arguments with
    | none => exact ⟨_, rfl, takesParts_malformed⟩
    | some both =>
      rcases both with ⟨argument, base⟩
      rw [eq_of_splitArguments? isSplit] at sliced
      have cuts := slice?_of_semicolon sliced
      exact ⟨_, rfl, takesParts_two rfl ⟨_, _, .argument takes sliced, cuts.1⟩
        ⟨_, _, .base takes sliced, cuts.2⟩⟩
  · exact ⟨_, rfl, takesParts_malformed⟩

theorem takesParts_signed {sign : Char} {negative : Bool} {rest : List Char}
    (isSign : sign = '-' ∨ sign = '+') :
    TakesParts policy (sign :: rest) (.signed negative rest) := by
  have takes : Takes policy (sign :: rest) 1 (byteLength (sign :: rest)) := .unsigned isSign rfl
  have cut := slice?_append [sign] rest []
  have small := utf8Size_of_isSign isSign
  rw [List.append_nil, byteLength_cons, small] at cut
  apply takesParts_one rfl ⟨_, _, takes, _⟩
  rw [byteLength_cons, small]
  exact cut

/-- Every text is taken apart, or it is seen to be malformed. -/
theorem exists_shape? (policy : SplitPolicy) (text : List Char) :
    ∃ shape, shape? policy text = some shape ∧ TakesParts policy text shape := by
  rw [shape?]
  split
  · exact ⟨_, rfl, takesParts_malformed⟩
  split
  · exact ⟨_, rfl, takesParts_nil rfl⟩
  split
  · exact ⟨_, rfl, takesParts_malformed⟩
  rename_i pairs found
  split
  · rename_i wrapped
    have takes : Takes policy text 1 (byteLength text - 1) := .inner found wrapped
    rcases takes.exists_slice? with ⟨inner, sliced⟩
    rw [sliced]
    exact ⟨_, rfl, takesParts_one rfl ⟨_, _, takes, sliced⟩⟩
  split
  · rename_i cut split_eq
    exact exists_of_split? split_eq
  split
  · exact ⟨_, rfl, takesParts_signed (.inl rfl)⟩
  · exact ⟨_, rfl, takesParts_signed (.inr rfl)⟩
  split
  · rename_i offset isCall
    exact exists_of_cutLogarithm found isCall
  · exact ⟨_, rfl, takesParts_malformed⟩

/-! ## Evaluation -/

/-- Evaluation of the text may go on to the other one: it is the text, or a part of it, or a part of
such a part, and so on. -/
inductive Subexpression (policy : SplitPolicy) : (text part : List Char) → Prop where
  | self (text : List Char) : Subexpression policy text text
  | inside {text inner part : List Char} {shape : Shape} {parts : List (List Char)} :
      shape? policy text = some shape → shape.parts? = some parts → inner ∈ parts →
        Subexpression policy inner part → Subexpression policy text part

/-- What evaluation of a text can end with. -/
inductive Outcome (policy : SplitPolicy) (limit : Nat) (text : List Char) :
    Except Fault Float → Prop where
  | value (value : Float) : Outcome policy limit text (.ok value)
  | malformed {part : List Char} :
      Subexpression policy text part → Outcome policy limit text (.error (.malformed part))
  | divisionByZero (quotient : List Char) :
      Outcome policy limit text (.error (.divisionByZero quotient))
  | tooDeep : Outcome policy limit text (.error (.tooDeep limit))

theorem Outcome.of_part {limit : Nat} {inner : List Char} {fault : Fault}
    (shape_eq : shape? policy text = some shape) (parts_eq : shape.parts? = some parts)
    (member : inner ∈ parts) (outcome : Outcome policy limit inner (.error fault)) :
    Outcome policy limit text (.error fault) := by
  cases outcome with
  | malformed inside => exact .malformed (.inside shape_eq parts_eq member inside)
  | divisionByZero quotient => exact .divisionByZero quotient
  | tooDeep => exact .tooDeep

theorem Shape.eq_malformed (noParts : shape.parts? = none) : shape = .malformed := by
  cases shape with
  | malformed => rfl
  | _ => cases noParts

theorem outcome_evaluateWithin (policy : SplitPolicy) (limit levels : Nat) (text : List Char) :
    Outcome policy limit text (evaluateWithin policy limit levels text) := by
  induction levels generalizing text with
  | zero => exact .tooDeep
  | succ levels inductionHypothesis =>
    rw [evaluateWithin]
    rcases exists_shape? policy text with ⟨shape, shape_eq, -⟩
    cases parts_eq : shape.parts? with
    | none =>
      rw [evaluateShape, shape_eq, shape.eq_malformed parts_eq]
      exact .malformed (.self text)
    | some parts =>
      -- The outcome is the fault of a part, which has fewer levels left, or it is computed here.
      have follows := evaluateShape_follows (evaluateWithin policy limit levels) shape_eq parts_eq
      revert follows
      generalize evaluateShape policy (evaluateWithin policy limit levels) text = outcome
      intro follows
      cases follows with
      | @fault inner _ member failed =>
        have outcome := inductionHypothesis inner
        rw [failed] at outcome
        exact outcome.of_part shape_eq parts_eq member
      | computed _ computed =>
        cases computed with
        | value value => exact .value value
        | quotient quotient => exact .divisionByZero quotient

/-- Whatever a text is made of, each slice that evaluation takes of it or of a subexpression is in
range and falls between characters, each subexpression is taken apart into such slices, and the
outcome is a value or one of three faults. -/
theorem evaluation_is_safe (evaluator : Evaluator) (text : List Char) :
    (∀ part, Subexpression evaluator.policy text part →
      (∀ start stop, Takes evaluator.policy part start stop → IsSlice part start stop) ∧
        ∃ shape, shape? evaluator.policy part = some shape ∧
          TakesParts evaluator.policy part shape) ∧
      Outcome evaluator.policy evaluator.nesting text (evaluator.evaluate text) := by
  constructor
  · intro part _
    exact ⟨fun _ _ takes => takes.isSlice, exists_shape? evaluator.policy part⟩
  · exact outcome_evaluateWithin _ _ _ text

end Formulary.Formula
