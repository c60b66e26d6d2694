import Formulary.Formula.Canonical
import Formulary.Proofs.Formula.Spelling

/-!
# What an accepted text is made of

A text that is accepted as a formula is made of tokens, and its neighbouring characters, its
brackets and its ends satisfy the conditions of acceptance. If all its decimal digits are ASCII digits, its
tokens are powers of numbers, logarithms of numbers, markers and single characters.
-/

namespace Formulary.Formula

open Text
open Text.Pattern (Matches matches_one_iff matches_seq_iff matches_either_iff)

/-! ## Conditions -/

/-- Two characters may stand side by side in a formula. -/
structure Fits (first second : Char) : Prop where
  notOperators : (isOperator first && isOperator second) = false
  notJoined : joinsOperands first second = false
  notMissing : missesOperand first second = false

/-- What a text has to satisfy to be accepted as a formula. -/
structure Accepted (text : List Char) : Prop where
  nonempty : text ≠ []
  tokens : Matches tokensPattern text
  neighbours : text.IsChain Fits
  brackets : bracketFault? 0 0 false text = none
  begins : ∀ c ∈ text.head?, c ≠ '*' ∧ c ≠ '/'
  ends : ∀ c ∈ text.getLast?, isOperator c = false

variable {text left right digits : List Char}

/-- What no pair of neighbours has holds of no two characters side by side. -/
theorem isChain_of_find?_neighbours {property : Char → Char → Bool} {offset : Nat}
    (found : ((neighbours offset text).find? fun (_, first, second) => property first second) =
      none) :
    text.IsChain fun first second => property first second = false := by
  induction text generalizing offset with
  | nil => exact .nil
  | cons first rest inductionHypothesis =>
    cases rest with
    | nil => exact .singleton first
    | cons second rest =>
      rw [neighbours, List.find?_cons] at found
      split at found
      · cases found
      · rename_i lacks
        exact List.isChain_cons_cons.mpr ⟨lacks, inductionHypothesis found⟩

theorem isChain_of_checkOperators (checked : checkOperators text = .ok ()) :
    text.IsChain fun first second => (isOperator first && isOperator second) = false := by
  rw [checkOperators] at checked
  split at checked
  · cases checked
  · rename_i found
    exact isChain_of_find?_neighbours found

theorem isChain_of_checkNeighbours (checked : checkNeighbours text = .ok ()) :
    text.IsChain fun first second =>
      (joinsOperands first second || missesOperand first second) = false := by
  simp only [checkNeighbours] at checked
  split at checked
  · cases checked
  · rename_i found
    exact isChain_of_find?_neighbours found

theorem bracketFault?_of_checkBrackets (checked : checkBrackets text = .ok ()) :
    bracketFault? 0 0 false text = none := by
  rw [checkBrackets] at checked
  split at checked
  · cases checked
  · assumption

theorem begins_of_checkFirst (checked : checkFirst text = .ok ()) :
    ∀ c ∈ text.head?, c ≠ '*' ∧ c ≠ '/' := by
  intro c isHead
  rw [checkFirst, isHead] at checked
  simp only at checked
  split at checked
  · cases checked
  · rename_i neither
    exact not_or.mp neither

theorem ends_of_checkLast (checked : checkLast text = .ok ()) :
    ∀ c ∈ text.getLast?, isOperator c = false := by
  intro c isLast
  rw [checkLast, isLast] at checked
  simp only at checked
  split at checked
  · cases checked
  · rename_i notOperator
    exact Bool.eq_false_iff.mpr notOperator

theorem isChain_fits
    (operators : text.IsChain fun first second => (isOperator first && isOperator second) = false)
    (others : text.IsChain fun first second =>
      (joinsOperands first second || missesOperand first second) = false) :
    text.IsChain Fits := by
  induction operators with
  | nil => exact .nil
  | singleton c => exact .singleton c
  | cons_cons notOperators _ inductionHypothesis =>
    rcases List.isChain_cons_cons.mp others with ⟨neither, later⟩
    rcases Bool.or_eq_false_iff.mp neither with ⟨notJoined, notMissing⟩
    exact .cons_cons ⟨notOperators, notJoined, notMissing⟩ (inductionHypothesis later)

/-- A check that is followed by something else has been passed. -/
theorem ok_of_bind {α : Type} {check : Except Fault Unit} {next : Unit → Except Fault α}
    {answer : α} (run : (check >>= next) = .ok answer) : check = .ok () ∧ next () = .ok answer := by
  cases check with
  | error fault => cases run
  | ok => exact ⟨rfl, run⟩

/-- A formula has passed all the checks. -/
theorem accepted_of_canonical {raw : List Char} (spelled : canonical raw = .ok text) :
    Accepted text := by
  rw [canonical] at spelled
  simp only at spelled
  split at spelled
  · cases spelled
  rename_i nonempty
  split at spelled
  · cases spelled
  rename_i tokens
  rcases ok_of_bind spelled with ⟨operators, spelled⟩
  rcases ok_of_bind spelled with ⟨brackets, spelled⟩
  rcases ok_of_bind spelled with ⟨first, spelled⟩
  rcases ok_of_bind spelled with ⟨last, spelled⟩
  rcases ok_of_bind spelled with ⟨others, spelled⟩
  cases spelled
  have accepts : tokensPattern.accepts (canonicalText raw) = true := by simpa using tokens
  exact ⟨nonempty, Pattern.accepts_iff.mp accepts,
    isChain_fits (isChain_of_checkOperators operators) (isChain_of_checkNeighbours others),
    bracketFault?_of_checkBrackets brackets, begins_of_checkFirst first, ends_of_checkLast last⟩

/-! ## Tokens -/

/-- All decimal digits of a text are ASCII digits. -/
def AsciiDigits (text : List Char) : Prop :=
  ∀ c ∈ text, isDecimalDigit c = true → isAsciiDigit c = true

theorem asciiDigits_append_iff :
    AsciiDigits (left ++ right) ↔ AsciiDigits left ∧ AsciiDigits right := by
  simp only [AsciiDigits, List.mem_append, or_imp, forall_and]

/-- A token of a formula whose decimal digits are ASCII digits. -/
inductive IsToken : List Char → Prop where
  | powers {text : List Char} : IsPowers IsRun text → IsToken text
  | logarithm (argument base : Numeral) : IsToken (logarithmText argument.text base.text)
  | marker {digits : List Char} :
      digits ≠ [] → (∀ c ∈ digits, isAsciiDigit c = true) → IsToken ('{' :: (digits ++ ['}']))
  | symbol {c : Char} : c ∈ ['+', '-', '*', '/', '(', ')'] → IsToken [c]

theorem decimals_of_matches (belongs : Matches (.repeated (.one .digit)) text) :
    text ≠ [] ∧ ∀ c ∈ text, isDecimalDigit c = true := by
  rcases Pattern.exists_flatten_of_repeated belongs with ⟨parts, nonempty, rfl, belongsParts⟩
  have single : ∀ part ∈ parts, ∃ c, part = [c] ∧ isDecimalDigit c = true :=
    fun part member => matches_one_iff.mp (belongsParts part member)
  constructor
  · rcases List.exists_cons_of_ne_nil nonempty with ⟨part, others, rfl⟩
    rcases single part List.mem_cons_self with ⟨c, rfl, -⟩
    exact List.cons_ne_nil _ _
  · intro c member
    rcases List.mem_flatten.mp member with ⟨part, isPart, inPart⟩
    rcases single part isPart with ⟨digit, rfl, decimal⟩
    obtain rfl := List.mem_singleton.mp inPart
    exact decimal

theorem digits_of_matches (belongs : Matches (.repeated (.one .digit)) text)
    (ascii : AsciiDigits text) : text ≠ [] ∧ ∀ c ∈ text, isAsciiDigit c = true := by
  rcases decimals_of_matches belongs with ⟨nonempty, decimal⟩
  exact ⟨nonempty, fun c member => ascii c member (decimal c member)⟩

theorem isNumeral_of_matches (belongs : Matches numberPattern text) (ascii : AsciiDigits text) :
    IsNumeral text := by
  rcases matches_seq_iff.mp belongs with ⟨whole, behind, rfl, belongsWhole, belongsBehind⟩
  rcases asciiDigits_append_iff.mp ascii with ⟨asciiWhole, asciiBehind⟩
  rcases digits_of_matches belongsWhole asciiWhole with ⟨nonempty, digits⟩
  rcases Pattern.matches_optional_iff.mp belongsBehind with rfl | belongsBehind
  · rw [List.append_nil]
    exact isNumeral_of_digits nonempty digits
  · rcases matches_seq_iff.mp belongsBehind with ⟨point, fraction, rfl, isPoint, belongsFraction⟩
    obtain rfl := Pattern.matches_literal_iff.mp isPoint
    rcases digits_of_matches belongsFraction (asciiDigits_append_iff.mp asciiBehind).2 with
      ⟨others, fractionDigits⟩
    have isNumeral := isNumeral_pointText nonempty digits fractionDigits
    rwa [Number.pointText, if_neg others] at isNumeral

theorem isPowers_of_matches (belongs : Matches powerPattern text) (ascii : AsciiDigits text) :
    IsPowers IsRun text := by
  rcases matches_seq_iff.mp belongs with ⟨base, behind, rfl, belongsBase, belongsBehind⟩
  rcases asciiDigits_append_iff.mp ascii with ⟨asciiBase, asciiBehind⟩
  have baseRun := (isNumeral_of_matches belongsBase asciiBase).isRun
  rcases Pattern.matches_optional_iff.mp belongsBehind with rfl | belongsBehind
  · rw [List.append_nil]
    exact .run baseRun
  · rcases matches_seq_iff.mp belongsBehind with ⟨power, exponent, rfl, isPower, belongsExponent⟩
    obtain rfl := Pattern.matches_literal_iff.mp isPower
    have asciiExponent := (asciiDigits_append_iff.mp asciiBehind).2
    exact .power baseRun (.run (isNumeral_of_matches belongsExponent asciiExponent).isRun)

theorem isToken_of_logarithm (belongs : Matches logarithmPattern text) (ascii : AsciiDigits text) :
    IsToken text := by
  rcases matches_seq_iff.mp belongs with ⟨name, _, rfl, isName, belongs⟩
  rcases matches_seq_iff.mp belongs with ⟨argument, _, rfl, belongsArgument, belongs⟩
  rcases matches_seq_iff.mp belongs with ⟨semicolon, _, rfl, isSemicolon, belongs⟩
  rcases matches_seq_iff.mp belongs with ⟨base, closing, rfl, belongsBase, isClosing⟩
  obtain rfl := Pattern.matches_literal_iff.mp isName
  obtain rfl := Pattern.matches_literal_iff.mp isSemicolon
  obtain rfl := Pattern.matches_literal_iff.mp isClosing
  simp only [asciiDigits_append_iff] at ascii
  rcases ascii with ⟨-, asciiArgument, -, asciiBase, -⟩
  rcases isNumeral_of_matches belongsArgument asciiArgument with ⟨argument, rfl⟩
  rcases isNumeral_of_matches belongsBase asciiBase with ⟨base, rfl⟩
  have token := IsToken.logarithm argument base
  rw [logarithmText] at token
  simpa using token

theorem isToken_of_marker (belongs : Matches markerPattern text) (ascii : AsciiDigits text) :
    IsToken text := by
  rcases matches_seq_iff.mp belongs with ⟨opening, _, rfl, isOpening, belongs⟩
  rcases matches_seq_iff.mp belongs with ⟨digits, closing, rfl, belongsDigits, isClosing⟩
  obtain rfl := Pattern.matches_literal_iff.mp isOpening
  obtain rfl := Pattern.matches_literal_iff.mp isClosing
  simp only [asciiDigits_append_iff] at ascii
  rcases digits_of_matches belongsDigits ascii.2.1 with ⟨nonempty, isAscii⟩
  exact .marker nonempty isAscii

theorem isToken_of_matches (belongs : Matches tokenPattern text) (ascii : AsciiDigits text) :
    IsToken text := by
  rcases matches_either_iff.mp belongs with isLogarithm | belongs
  · exact isToken_of_logarithm isLogarithm ascii
  rcases matches_either_iff.mp belongs with isPower | belongs
  · exact .powers (isPowers_of_matches isPower ascii)
  rcases matches_either_iff.mp belongs with isSymbol | isMarker
  · rcases Pattern.exists_mem_of_oneOf isSymbol with ⟨c, member, rfl⟩
    exact .symbol member
  · exact isToken_of_marker isMarker ascii

/-- An accepted text is a list of tokens. -/
theorem Accepted.exists_tokens (accepted : Accepted text) (ascii : AsciiDigits text) :
    ∃ tokens : List (List Char), text = tokens.flatten ∧ ∀ token ∈ tokens, IsToken token := by
  rcases Pattern.exists_flatten_of_repeated accepted.tokens with ⟨tokens, -, rfl, belongs⟩
  refine ⟨tokens, rfl, fun token member => isToken_of_matches (belongs token member) ?_⟩
  exact fun c inToken => ascii c (List.mem_flatten.mpr ⟨token, member, inToken⟩)

end Formulary.Formula
