import Formulary.Text.Offset

/-!
# Round brackets and what they enclose

Which texts are balanced, where the brackets of a text belong together, and where a character or a
call of the logarithm stands outside all of them. All positions are byte offsets.
-/

namespace Formulary.Formula

open Text

/-- Every closing bracket closes one that was opened before it, and none stays open. -/
def Balanced (text : List Char) : Prop :=
  (∀ left, left <+: text → left.count ')' ≤ left.count '(') ∧ text.count '(' = text.count ')'

/-- The brackets that belong together, in the order in which they are closed, given the offset
reached and the offsets of the brackets open there, innermost first. -/
def bracketPairsFrom (offset : Nat) : (opened : List Nat) → List Char → Option (List (Nat × Nat))
  | [], [] => some []
  | _ :: _, [] => none
  | opened, c :: rest =>
    if c = '(' then bracketPairsFrom (offset + 1) (offset :: opened) rest
    else if c = ')' then
      match opened with
      | [] => none
      | innermost :: outer =>
        (bracketPairsFrom (offset + 1) outer rest).map ((innermost, offset) :: ·)
    else bracketPairsFrom (offset + c.utf8Size) opened rest

/-- The brackets of a text that belong together, or `none` if some bracket has no partner. -/
def bracketPairs (text : List Char) : Option (List (Nat × Nat)) :=
  bracketPairsFrom 0 [] text

/-- A text is wrapped if its first and its last character are brackets that belong together. -/
def isWrapped (text : List Char) (pairs : List (Nat × Nat)) : Bool :=
  text != [] && pairs.any fun (opening, closing) => opening == 0 && closing == byteLength text - 1

/-- A place in a text: its offset and the character before it, if there is one. -/
structure Place where
  offset : Nat
  before : Option Char
  deriving DecidableEq

/-- The places of a character outside all brackets, given the offset and the depth reached and the
character just passed. A closing bracket at depth zero is passed over. -/
def outerPlacesFrom (target : Char) (offset depth : Nat) (before : Option Char) :
    List Char → List Place
  | [] => []
  | c :: rest =>
    if c = '(' then outerPlacesFrom target (offset + 1) (depth + 1) (some c) rest
    else if c = ')' then outerPlacesFrom target (offset + 1) (depth - 1) (some c) rest
    else
      let later := outerPlacesFrom target (offset + c.utf8Size) depth (some c) rest
      if c = target ∧ depth = 0 then ⟨offset, before⟩ :: later else later

/-- The places of a character outside all brackets, from left to right. -/
def outerPlaces (text : List Char) (target : Char) : List Place :=
  outerPlacesFrom target 0 0 none text

/-- After these characters, and at the beginning of a text, an operator is a sign of the operand
that follows. -/
def Place.isSign (place : Place) : Bool :=
  match place.before with
  | none => true
  | some c => c == '+' || c == '-' || c == '*' || c == '/' || c == '^' || c == '('

/-- The offsets outside all brackets at which an operator stands between two operands. -/
def binaryOffsets (text : List Char) (operator : Char) : List Nat :=
  ((outerPlaces text operator).filter fun place => !place.isSign).map (·.offset)

/-- The offset of the first call of the logarithm outside all brackets, given the offset and the
depth reached. -/
def outerLogarithmFrom (offset depth : Nat) : List Char → Option Nat
  | [] => none
  | c :: rest =>
    if c = '(' then outerLogarithmFrom (offset + 1) (depth + 1) rest
    else if c = ')' then outerLogarithmFrom (offset + 1) (depth - 1) rest
    else if c = 'l' ∧ depth = 0 ∧ ['o', 'g', '('].isPrefixOf rest then some offset
    else outerLogarithmFrom (offset + c.utf8Size) depth rest

/-- The offset of the first call of the logarithm outside all brackets. -/
def outerLogarithm? (text : List Char) : Option Nat :=
  outerLogarithmFrom 0 0 text

end Formulary.Formula
