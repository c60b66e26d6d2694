import Formulary.Proofs.Formula.RowText
import Formulary.Proofs.Formula.Settling

/-!
# Literals

Texts that are read as numbers, and texts that cannot be.
-/

namespace Formulary.Formula

open Text

variable {policy : SplitPolicy} {text : List Char} {number : Float}

/-- The characters that numbers are written with. -/
def isLiteralChar (c : Char) : Bool :=
  isAsciiDigit c || c == '.' || ['i', 'n', 'f', 'N', 'a'].contains c

theorem ne_of_isLiteralChar {c other : Char} (isLiteral : isLiteralChar c = true)
    (isOther : isLiteralChar other = false) : c ≠ other := by
  rintro rfl
  simp [isLiteral] at isOther

/-- A text in which something else stands behind the first character is no number. -/
theorem literal?_eq_none {c : Char} (member : c ∈ text.tail) (foreign : isLiteralChar c = false) :
    literal? text = none := by
  have inBody : c ∈ (Number.splitSign text).2 := by
    unfold Number.splitSign
    split
    · exact member
    · exact member
    · exact List.mem_of_mem_tail member
  have notAll : ((Number.splitSign text).2.all fun c => isAsciiDigit c || c == '.') = false := by
    rw [List.all_eq_false]
    refine ⟨c, inBody, ?_⟩
    intro isNumeral
    simp [isLiteralChar, isNumeral] at foreign
  have notWord : (Number.splitSign text).2 ≠ ['i', 'n', 'f'] ∧
      (Number.splitSign text).2 ≠ ['N', 'a', 'N'] := by
    constructor <;>
    · intro isWord
      rw [isWord] at inBody
      simp only [List.mem_cons, List.not_mem_nil, or_false] at inBody
      rcases inBody with rfl | rfl | rfl <;> exact absurd foreign (by decide)
  simp only [literal?]
  rw [if_neg]
  simp [notAll, notWord]

/-- A text that is read as this number, and behind a sign as the number with the sign. -/
structure Literal (text : List Char) (number : Float) : Prop where
  nonempty : text ≠ []
  characters : ∀ c ∈ text, isLiteralChar c = true
  reads : ∀ sign, literal? (signText sign ++ text) = some (signed sign number)

theorem signText_append_ne_nil (sign : Option Bool) (nonempty : text ≠ []) :
    signText sign ++ text ≠ [] := by
  simp [nonempty]

theorem Literal.settles (literal : Literal text number) (sign : Option Bool) :
    Settles policy (signText sign ++ text) (some (signed sign number)) := by
  apply settles_of_number
  rw [shape?, if_neg (signText_append_ne_nil sign literal.nonempty), literal.reads]

theorem Literal.enclosed {allowed : Char → Prop} (literal : Literal text number)
    (isAllowed : ∀ c, isLiteralChar c = true → allowed c) : Enclosed allowed text :=
  enclosed_of_forall fun c member =>
    have isLiteral := literal.characters c member
    ⟨ne_of_isLiteralChar isLiteral (by decide), ne_of_isLiteralChar isLiteral (by decide),
      isAllowed c isLiteral⟩

theorem noOperator_of_isLiteralChar {c : Char} (isLiteral : isLiteralChar c = true) :
    NoOperator c :=
  fun operator => ne_of_isLiteralChar isLiteral (by cases operator <;> decide)

/-- Behind such a character an operator is no sign. -/
theorem isSign_of_isLiteralChar {c : Char} (isLiteral : isLiteralChar c = true) (offset : Nat) :
    (Place.mk offset (some c)).isSign = false := by
  have different : ∀ other, isLiteralChar other = false → (c == other) = false :=
    fun other isOther => beq_eq_false_iff_ne.mpr (ne_of_isLiteralChar isLiteral isOther)
  simp [Place.isSign, different '+' (by decide), different '-' (by decide),
    different '*' (by decide), different '/' (by decide), different '^' (by decide),
    different '(' (by decide)]

theorem lastOr_of_ne_nil (nonempty : text ≠ []) (before : Option Char) :
    lastOr before text = some (text.getLast nonempty) := by
  simp [lastOr, List.getLast?_eq_some_getLast nonempty]

theorem Literal.operandText (literal : Literal text number) : OperandText text where
  enclosed := literal.enclosed fun _ => noOperator_of_isLiteralChar
  ends offset before := by
    rw [lastOr_of_ne_nil literal.nonempty]
    exact isSign_of_isLiteralChar (literal.characters _ (List.getLast_mem _)) offset

end Formulary.Formula
