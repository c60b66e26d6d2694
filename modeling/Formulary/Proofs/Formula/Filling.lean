import Formulary.Formula.Grammar
import Formulary.Proofs.Formula.Marking
import Formulary.Proofs.Formula.Reference
import Formulary.Proofs.Formula.Value

/-!
# Filling in values

Replacing the markers in the text of a tree gives the text of the same tree with values in the
places of its markers, and the markers found in the text are those of the tree.
-/

namespace Formulary.Formula

open Text

/-! ## Trees with their values filled in -/

mutual

/-- The text of a term with the values of its markers. -/
def Term.filled (values : Int → Float) : Term → List Char
  | .number numeral => numeral.text
  | .power base exponent => base.text ++ '^' :: exponent.text
  | .logarithm argument base => logarithmText argument.text base.text
  | .marker first others => valueText (values (idOfDigits first others))
  | .group sign first rest =>
    '(' :: (rowText sign (first.filled values) (restFilled values rest) ++ [')'])

/-- The texts of terms with the values of their markers. -/
def restFilled (values : Int → Float) : List (Operator × Term) → Operands (List Char)
  | [] => []
  | (operator, term) :: rest => (operator, term.filled values) :: restFilled values rest

end

/-- The text of a chain with the values of its markers. -/
def Chain.filled (values : Int → Float) (chain : Chain) : List Char :=
  rowText chain.sign (chain.first.filled values) (restFilled values chain.rest)

mutual

/-- The identities that the markers of a term name. -/
def Term.ids : Term → List Int
  | .number _ | .power _ _ | .logarithm _ _ => []
  | .marker first others => [idOfDigits first others]
  | .group _ first rest => first.ids ++ restIds rest

/-- The identities that the markers of terms name. -/
def restIds : List (Operator × Term) → List Int
  | [] => []
  | (_, term) :: rest => term.ids ++ restIds rest

end

/-- The identities that the markers of a chain name. -/
def Chain.ids (chain : Chain) : List Int :=
  chain.first.ids ++ restIds chain.rest

/-! ## Texts with markers -/

/-- The markers of a text name these identities, and with their values filled in it is this text. -/
structure Fills (valueOf : Int → Option Float) (text : List Char) (ids : List Int)
    (filled : List Char) : Prop where
  substituted : ∀ after, substitute valueOf (segments (text ++ after)) =
    filled ++ substitute valueOf (segments after)
  named : ∀ after listed, markedIds (segments after) = .ok listed →
    markedIds (segments (text ++ after)) = .ok (ids ++ listed)

variable {valueOf : Int → Option Float} {values : Int → Float}
  {text other filled others : List Char}
  {ids more : List Int}

theorem fills_nil : Fills valueOf [] [] [] where
  substituted _ := rfl
  named _ _ found := found

theorem Fills.append (left : Fills valueOf text ids filled)
    (right : Fills valueOf other more others) :
    Fills valueOf (text ++ other) (ids ++ more) (filled ++ others) where
  substituted after := by
    rw [List.append_assoc, left.substituted, right.substituted, List.append_assoc]
  named after listed found := by
    rw [List.append_assoc, List.append_assoc]
    exact left.named _ _ (right.named _ _ found)

theorem segments_cons {c : Char} (notOpening : c ≠ '{') (rest : List Char) :
    segments (c :: rest) = .plain c :: segments rest := by
  rw [segments, if_neg notOpening]

/-- A text without markers stays as it is. -/
theorem fills_plain (plain : ∀ c ∈ text, c ≠ '{') : Fills valueOf text [] text := by
  induction text with
  | nil => exact fills_nil
  | cons c rest inductionHypothesis =>
    have notOpening := plain c List.mem_cons_self
    have later := inductionHypothesis fun other member =>
      plain other (List.mem_cons_of_mem _ member)
    constructor
    · intro after
      rw [List.cons_append, segments_cons notOpening, List.cons_append, ← later.substituted]
      rfl
    · intro after listed found
      rw [List.cons_append, segments_cons notOpening, markedIds_plain]
      exact later.named after listed found

/-- A marker is replaced by the value of the identity that it names. -/
theorem fills_marker {digits : List Char} (nonempty : digits ≠ [])
    (ascii : ∀ c ∈ digits, isAsciiDigit c = true) {value : Float}
    (inRange : (digitsValue digits : Int) ≤ largestId)
    (given : valueOf (digitsValue digits) = some value) :
    Fills valueOf ('{' :: (digits ++ ['}'])) [(digitsValue digits : Int)] (valueText value) := by
  have named := markerId?_eq_some_iff.mpr ⟨⟨ascii, inRange⟩, rfl⟩
  have split : ∀ after, segments ('{' :: (digits ++ ['}']) ++ after) =
      .marker digits :: segments after := by
    intro after
    rw [List.cons_append, List.append_assoc, List.singleton_append]
    exact (beginsWithMarker_of_ascii nonempty ascii after).segments_eq
  constructor
  · intro after
    rw [split]
    simp [substitute, named, given]
  · intro after listed found
    rw [split]
    exact markedIds_marker_eq_ok_iff.mpr ⟨_, listed, named, found, rfl⟩

theorem Literal.ne_opening {number : Float} (literal : Literal text number) :
    ∀ c ∈ text, c ≠ '{' :=
  fun c member => ne_of_isLiteralChar (literal.characters c member) (by decide)

theorem fills_signText (sign : Option Bool) : Fills valueOf (signText sign) [] (signText sign) := by
  apply fills_plain
  rcases sign with _ | _ | _ <;> simp [signText]

theorem Numeral.fills (numeral : Numeral) : Fills valueOf numeral.text [] numeral.text :=
  fills_plain numeral.literal.ne_opening

theorem fills_singleton {c : Char} (notOpening : c ≠ '{') : Fills valueOf [c] [] [c] :=
  fills_plain fun other member => by rwa [List.mem_singleton.mp member]

mutual

/-- The text of a term is filled in at its markers. -/
theorem Term.fills (term : Term)
    (given : ∀ id ∈ term.ids, id ≤ largestId ∧ valueOf id = some (values id)) :
    Fills valueOf term.text term.ids (term.filled values) := by
  cases term with
  | number numeral =>
    rw [Term.text, Term.ids, Term.filled]
    exact numeral.fills
  | power base exponent =>
    rw [Term.text, Term.ids, Term.filled]
    exact base.fills.append ((fills_singleton (by decide)).append exponent.fills)
  | logarithm argument base =>
    have name : Fills valueOf ['l', 'o', 'g', '('] [] ['l', 'o', 'g', '('] := fills_plain (by simp)
    have semicolon : Fills valueOf [';'] [] [';'] := fills_singleton (by decide)
    have closing : Fills valueOf [')'] [] [')'] := fills_singleton (by decide)
    have whole := name.append
      (argument.fills.append (semicolon.append (base.fills.append closing)))
    rw [Term.text, Term.ids, Term.filled, logarithmText]
    simpa using whole
  | marker first others =>
    rcases given _ (List.mem_singleton_self _) with ⟨inRange, found⟩
    have ascii : ∀ c ∈ (first :: others).map digitChar, isAsciiDigit c = true :=
      fun c => isAsciiDigit_of_mem_map
    exact fills_marker (List.cons_ne_nil _ _) ascii inRange found
  | group sign first rest =>
    rw [Term.ids] at given
    have firstFills := Term.fills first fun id member => given id (List.mem_append_left _ member)
    have restFills' := restFills rest fun id member => given id (List.mem_append_right _ member)
    have inner := (fills_signText sign).append (firstFills.append restFills')
    have opening : Fills valueOf ['('] [] ['('] := fills_singleton (by decide)
    have closing : Fills valueOf [')'] [] [')'] := fills_singleton (by decide)
    have whole := opening.append (inner.append closing)
    rw [Term.text, Term.ids, Term.filled, rowText]
    simpa using whole

/-- The text of terms with operators before them is filled in at their markers. -/
theorem restFills (rest : List (Operator × Term))
    (given : ∀ id ∈ restIds rest, id ≤ largestId ∧ valueOf id = some (values id)) :
    Fills valueOf (restText rest) (restIds rest) (operandsText (restFilled values rest)) := by
  match rest with
  | [] => exact fills_nil
  | (operator, term) :: rest =>
    rw [restIds] at given
    have termFills := Term.fills term fun id member => given id (List.mem_append_left _ member)
    have later := restFills rest fun id member => given id (List.mem_append_right _ member)
    have symbol : Fills valueOf [operator.symbol] [] [operator.symbol] :=
      fills_singleton (by cases operator <;> decide)
    rw [restText, restIds, restFilled, operandsText]
    exact symbol.append (termFills.append later)

end

/-- The text of a chain is filled in at its markers. -/
theorem Chain.fills (chain : Chain)
    (given : ∀ id ∈ chain.ids, id ≤ largestId ∧ valueOf id = some (values id)) :
    Fills valueOf chain.text chain.ids (chain.filled values) := by
  have firstFills := chain.first.fills fun id member => given id (List.mem_append_left _ member)
  have restFills := restFills chain.rest fun id member => given id (List.mem_append_right _ member)
  have whole := (fills_signText chain.sign).append (firstFills.append restFills)
  rw [Chain.text, Chain.ids, Chain.filled, rowText]
  simpa using whole

end Formulary.Formula
