import Formulary.Json.Value
import Formulary.Proofs.Json.Numeral

/-!
# Written texts as tokens

A text spells tokens if these are read whatever follows, as long as the last of them ends there:
neither a number nor a word may go on. Written numbers, words and strings spell one token each, and
texts with a character of punctuation between them spell what they spell on their own.
-/

namespace Formulary.Json

open Text (isAsciiDigit)
open Number (pointText)

variable {text after rest letters written : List Char} {tokens others : List Token} {token : Token}
  {c : Char} {numeral : Numeral}

/-! ## Single tokens -/

theorem mem_of_punctuation? (isPunctuation : punctuation? c = some token) :
    c ∈ ['[', ']', '{', '}', ',', ':'] := by
  simp only [punctuation?] at isPunctuation
  repeat'
    split at isPunctuation
    · rename_i same
      subst same
      decide
  cases isPunctuation

theorem tokens?_of_splitToken? (notSpace : isSpace c = false) (notQuote : c ≠ '"')
    (split : splitToken? c rest = some (token, after)) :
    tokens? (c :: rest) = (tokens? after).map (token :: ·) := by
  rw [tokens?, if_neg (by simp [notSpace]), if_neg notQuote]
  split
  · rename_i noToken
    cases noToken.symm.trans split
  · rename_i isToken
    cases isToken.symm.trans split
    rfl

theorem tokens?_of_splitQuoted? (split : splitQuoted? rest = some (written, after)) :
    tokens? ('"' :: rest) = (tokens? after).map (.string written :: ·) := by
  rw [tokens?, if_neg (by decide), if_pos rfl]
  split
  · rename_i noString
    cases noString.symm.trans split
  · rename_i isString
    cases isString.symm.trans split
    rfl

theorem tokens?_punctuation (isPunctuation : punctuation? c = some token) :
    tokens? (c :: rest) = (tokens? rest).map (token :: ·) := by
  have plain : ∀ c ∈ ['[', ']', '{', '}', ',', ':'], isSpace c = false ∧ c ≠ '"' := by
    simp [isSpace]
  rcases plain c (mem_of_punctuation? isPunctuation) with ⟨notSpace, notQuote⟩
  apply tokens?_of_splitToken? notSpace notQuote
  rw [splitToken?, isPunctuation]

/-! ## Spelling -/

/-- Neither a number nor a word goes on in the text. -/
def EndsToken (rest : List Char) : Prop :=
  ∀ c ∈ rest.head?, isNumberChar c = false ∧ c.isAlpha = false

theorem endsToken_nil : EndsToken [] := nofun

theorem endsToken_punctuation (isPunctuation : punctuation? c = some token) :
    EndsToken (c :: rest) := by
  have ends : ∀ c ∈ ['[', ']', '{', '}', ',', ':'],
      isNumberChar c = false ∧ c.isAlpha = false := by
    simp [isNumberChar, isAsciiDigit, Char.isAlpha, Char.isUpper, Char.isLower]
  rintro _ ⟨⟩
  exact ends c (mem_of_punctuation? isPunctuation)

/-- The text is read as the tokens, whatever ends them. -/
def Spells (text : List Char) (tokens : List Token) : Prop :=
  ∀ rest, EndsToken rest → tokens? (text ++ rest) = (tokens? rest).map (tokens ++ ·)

theorem Spells.tokens?_eq (spells : Spells text tokens) : tokens? text = some tokens := by
  have read := spells [] endsToken_nil
  rw [List.append_nil, tokens?, Option.map_some, List.append_nil] at read
  exact read

theorem spells_nil : Spells [] [] := by
  intro rest _
  exact Option.map_id'.symm

/-- Texts with punctuation between them spell what they spell on their own. -/
theorem Spells.punctuated (first : Spells text tokens) (isPunctuation : punctuation? c = some token)
    (second : Spells after others) : Spells (text ++ c :: after) (tokens ++ token :: others) := by
  intro rest ends
  rw [List.append_assoc, List.cons_append, first _ (endsToken_punctuation isPunctuation),
    tokens?_punctuation isPunctuation, second rest ends, Option.map_map, Option.map_map]
  simp [Function.comp_def]

/-! ## Words and numbers -/

theorem exists_of_word? (isWord : word? text = some token) :
    ∃ first behind, text = first :: behind ∧ first ∈ ['n', 't', 'f'] ∧
      ∀ letter ∈ behind, letter.isAlpha = true := by
  simp only [word?] at isWord
  repeat'
    split at isWord
    · rename_i same
      exact ⟨_, _, same, by decide, by simp⟩
  cases isWord

theorem spells_word (isWord : word? text = some token) : Spells text [token] := by
  intro rest ends
  rcases exists_of_word? isWord with ⟨first, behind, rfl, isFirst, alpha⟩
  have plain : ∀ c ∈ ['n', 't', 'f'], isSpace c = false ∧ c ≠ '"' ∧ punctuation? c = none ∧
      ¬(c = '-' ∨ isAsciiDigit c = true) := by
    simp [isSpace, punctuation?, isAsciiDigit]
  rcases plain first isFirst with ⟨notSpace, notQuote, noPunctuation, noNumber⟩
  rcases takeWhile_of_ends alpha fun c isHead => (ends c isHead).2 with ⟨taken, dropped⟩
  apply tokens?_of_splitToken? notSpace notQuote
  rw [splitToken?, noPunctuation]
  simp only
  rw [if_neg noNumber]
  show (word? (first :: (behind ++ rest).takeWhile Char.isAlpha)).map _ = _
  rw [taken, isWord]
  show some (token, (behind ++ rest).dropWhile Char.isAlpha) = _
  rw [dropped]

theorem isNumberChar_of_isAsciiDigit (digit : isAsciiDigit c = true) : isNumberChar c = true := by
  simp [isNumberChar, digit]

theorem isNumberChar_of_mem_exponentText {exponent : Option Int}
    (member : c ∈ exponentText exponent) : isNumberChar c = true := by
  cases exponent with
  | none => cases member
  | some exponent =>
    rcases List.mem_cons.mp member with rfl | member
    · rfl
    rcases List.mem_cons.mp member with rfl | member
    · split <;> rfl
    · exact isNumberChar_of_isAsciiDigit (Number.isAsciiDigit_of_mem_toDigits member)

theorem isNumberChar_of_mem_pointText {whole fraction : List Char}
    (wholeAscii : ∀ c ∈ whole, isAsciiDigit c = true)
    (fractionAscii : ∀ c ∈ fraction, isAsciiDigit c = true)
    (member : c ∈ pointText whole fraction) : isNumberChar c = true := by
  rw [pointText] at member
  split at member
  · exact isNumberChar_of_isAsciiDigit (wholeAscii c member)
  rcases List.mem_append.mp member with inWhole | member
  · exact isNumberChar_of_isAsciiDigit (wholeAscii c inWhole)
  rcases List.mem_cons.mp member with rfl | inFraction
  · rfl
  · exact isNumberChar_of_isAsciiDigit (fractionAscii c inFraction)

theorem isNumberChar_of_mem_unsigned (wellFormed : numeral.WellFormed)
    (member : c ∈ pointText numeral.whole numeral.fraction ++ exponentText numeral.exponent) :
    isNumberChar c = true := by
  rcases List.mem_append.mp member with inDigits | inExponent
  · exact isNumberChar_of_mem_pointText wellFormed.whole wellFormed.fraction inDigits
  · exact isNumberChar_of_mem_exponentText inExponent

/-- A number begins with its sign or with a digit and goes on with characters of numbers. -/
theorem exists_numeralText_eq_cons (wellFormed : numeral.WellFormed) :
    ∃ first behind, numeral.text = first :: behind ∧ (first = '-' ∨ isAsciiDigit first = true) ∧
      ∀ c ∈ behind, isNumberChar c = true := by
  rcases exists_unsigned_eq_cons wellFormed (exponentText numeral.exponent) with
    ⟨first, behind, unsigned_eq, digit⟩
  have characters := fun c => isNumberChar_of_mem_unsigned (c := c) wellFormed
  rw [unsigned_eq] at characters
  rw [Numeral.text, unsigned_eq]
  cases numeral.negative with
  | true => exact ⟨_, _, rfl, .inl rfl, characters⟩
  | false => exact ⟨_, _, rfl, .inr digit, fun c member => characters c (.tail _ member)⟩

theorem plain_of_numberStart (starts : c = '-' ∨ isAsciiDigit c = true) :
    isSpace c = false ∧ c ≠ '"' ∧ punctuation? c = none := by
  rcases starts with rfl | digit
  · decide
  · have noDigit : ∀ other ∈ [' ', '\n', '\t', '\r', '"', '[', ']', '{', '}', ',', ':'],
        isAsciiDigit other = false := by
      simp [isAsciiDigit]
    have different := fun other member => Number.ne_of_isAsciiDigit digit (noDigit other member)
    simp [isSpace, punctuation?, different]

theorem spells_number (wellFormed : numeral.WellFormed) :
    Spells numeral.text [.number numeral.text] := by
  intro rest ends
  have read := Numeral.ofText?_text wellFormed
  rcases exists_numeralText_eq_cons wellFormed with ⟨first, behind, text_eq, starts, characters⟩
  rw [text_eq] at read ⊢
  rcases plain_of_numberStart starts with ⟨notSpace, notQuote, noPunctuation⟩
  rcases takeWhile_of_ends characters fun c isHead => (ends c isHead).1 with ⟨taken, dropped⟩
  apply tokens?_of_splitToken? notSpace notQuote
  rw [splitToken?, noPunctuation]
  simp only
  rw [if_pos starts]
  show (Numeral.ofText? (first :: (behind ++ rest).takeWhile isNumberChar)).map _ = _
  rw [taken, read]
  show some (Token.number (first :: (behind ++ rest).takeWhile isNumberChar),
    (behind ++ rest).dropWhile isNumberChar) = _
  rw [taken, dropped]

/-! ## Strings -/

theorem splitQuoted?_escapeChar (c : Char) (rest : List Char) :
    splitQuoted? (escapeChar c ++ rest) =
      (splitQuoted? rest).map fun (written, after) => (escapeChar c ++ written, after) := by
  unfold escapeChar
  split
  · rename_i name short
    have escape := shortEscape?_of_shortName? short
    show splitQuoted? ('\\' :: name :: rest) = _
    rw [splitQuoted?, if_pos (by rw [escape]; rfl)]
    · rfl
    · rintro _ _ _ _ _ rfl _
      cases escape
  · rename_i noName
    split
    · rename_i low
      have number := hexWord?_hexDigit low
      show splitQuoted? ('\\' :: 'u' :: '0' :: '0' :: _ :: _ :: rest) = _
      rw [splitQuoted?, if_pos (by rw [number]; rfl)]
      rfl
    · rename_i high
      have notBackslash := ne_backslash_of_shortName? noName
      have notQuote : c ≠ '"' := by
        rintro rfl
        cases noName
      show splitQuoted? (c :: rest) = _
      rw [splitQuoted?, if_neg high]
      · rfl
      · exact notQuote
      · exact fun _ _ _ _ _ same => absurd same notBackslash
      · exact fun _ _ same => absurd same notBackslash
      · exact fun same => absurd same notBackslash

/-- A written text goes on up to its closing quote. -/
theorem splitQuoted?_escape (text rest : List Char) :
    splitQuoted? (escape text ++ '"' :: rest) = some (escape text, rest) := by
  induction text with
  | nil => rfl
  | cons c others inductionHypothesis =>
    rw [escape, List.flatMap_cons, ← escape, List.append_assoc, splitQuoted?_escapeChar,
      inductionHypothesis]
    rfl

theorem spells_quoted (text : List Char) :
    Spells (quoted (escape text)) [.string (escape text)] := by
  intro rest _
  have split : splitQuoted? (escape text ++ ['"'] ++ rest) = some (escape text, rest) := by
    rw [List.append_assoc]
    exact splitQuoted?_escape text rest
  exact tokens?_of_splitQuoted? split

end Formulary.Json
