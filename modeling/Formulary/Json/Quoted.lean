/-!
# The text inside JSON quotes

Between its quotes a JSON string is written with escapes. `escape` writes a text that way, escaping
only what must be: the quote, the backslash, and the characters below the blank. `unescape?` reads
every escape of the format. A character outside the basic plane may be written as two escapes, a
high and a low surrogate; a surrogate on its own is refused.

The main statement, `unescape?_escape`, says that a text is read as it was written.
-/

namespace Formulary.Json

/-- The hexadecimal digit of a number below sixteen, in small letters. -/
def hexDigit (value : Nat) : Char :=
  Nat.digitChar value

/-- The value of a hexadecimal digit, in small or capital letters. -/
def hexValue? (c : Char) : Option Nat :=
  if '0' ≤ c ∧ c ≤ '9' then some (c.toNat - '0'.toNat)
  else if 'a' ≤ c ∧ c ≤ 'f' then some (c.toNat - 'a'.toNat + 10)
  else if 'A' ≤ c ∧ c ≤ 'F' then some (c.toNat - 'A'.toNat + 10)
  else none

/-- The value of four hexadecimal digits. -/
def hexWord? (a b c d : Char) : Option Nat := do
  let first ← hexValue? a
  let second ← hexValue? b
  let third ← hexValue? c
  let fourth ← hexValue? d
  return ((first * 16 + second) * 16 + third) * 16 + fourth

/-- The character that a short escape stands for, given the character after the backslash. -/
def shortEscape? (c : Char) : Option Char :=
  if c = '"' then some '"'
  else if c = '\\' then some '\\'
  else if c = '/' then some '/'
  else if c = 'b' then some '\x08'
  else if c = 'f' then some '\x0c'
  else if c = 'n' then some '\n'
  else if c = 'r' then some '\r'
  else if c = 't' then some '\t'
  else none

/-! ## Writing -/

/-- The character written after a backslash for a character that must be escaped, if it has a short
escape. -/
def shortName? (c : Char) : Option Char :=
  if c = '"' then some '"'
  else if c = '\\' then some '\\'
  else if c = '\x08' then some 'b'
  else if c = '\t' then some 't'
  else if c = '\n' then some 'n'
  else if c = '\x0c' then some 'f'
  else if c = '\r' then some 'r'
  else none

/-- A character as it is written between quotes. -/
def escapeChar (c : Char) : List Char :=
  match shortName? c with
  | some name => ['\\', name]
  | none =>
    if c.toNat < 0x20 then
      ['\\', 'u', '0', '0', hexDigit (c.toNat / 16), hexDigit (c.toNat % 16)]
    else [c]

/-- A text as it is written between quotes. -/
def escape (text : List Char) : List Char :=
  text.flatMap escapeChar

/-! ## Reading -/

/-- What is written between quotes: a character, or a unit of sixteen bits. -/
inductive QuotedUnit where
  | char (c : Char)
  | word (value : Nat)
  deriving DecidableEq

/-- The units of a written text, or `none` at a bad escape. -/
def units? : List Char → Option (List QuotedUnit)
  | [] => some []
  | '\\' :: 'u' :: a :: b :: c :: d :: rest => do
    let value ← hexWord? a b c d
    let others ← units? rest
    return .word value :: others
  | '\\' :: c :: rest => do
    let meant ← shortEscape? c
    let others ← units? rest
    return .char meant :: others
  | ['\\'] => none
  | c :: rest => (units? rest).map (.char c :: ·)

/-- A unit that begins a pair of surrogates. -/
def isHighSurrogate (value : Nat) : Bool :=
  0xD800 ≤ value && value < 0xDC00

/-- A unit that ends a pair of surrogates. -/
def isLowSurrogate (value : Nat) : Bool :=
  0xDC00 ≤ value && value < 0xE000

/-- The text of units, pairs of surrogates joined to one character. -/
def joinUnits? : List QuotedUnit → Option (List Char)
  | [] => some []
  | .char c :: rest => (joinUnits? rest).map (c :: ·)
  | .word high :: .word low :: rest =>
    if isHighSurrogate high then
      if isLowSurrogate low then
        (joinUnits? rest).map (Char.ofNat (0x10000 + (high - 0xD800) * 0x400 + (low - 0xDC00)) :: ·)
      else none
    else if isLowSurrogate high then none
    else (joinUnits? (.word low :: rest)).map (Char.ofNat high :: ·)
  | .word value :: rest =>
    if isHighSurrogate value || isLowSurrogate value then none
    else (joinUnits? rest).map (Char.ofNat value :: ·)

/-- The text that is written between quotes. -/
def unescape? (written : List Char) : Option (List Char) :=
  (units? written).bind joinUnits?

/-! ## What is written is read -/

/-- The digits written for a number below sixteen are read as that number. -/
theorem hexValue?_hexDigit : ∀ value < 16, hexValue? (hexDigit value) = some value := by decide

/-- A unit that is no surrogate is a character of its own. -/
theorem joinUnits?_word {value : Nat} (notHigh : isHighSurrogate value = false)
    (notLow : isLowSurrogate value = false) (units : List QuotedUnit) :
    joinUnits? (.word value :: units) = (joinUnits? units).map (Char.ofNat value :: ·) := by
  cases units with
  | nil => simp [joinUnits?, notHigh, notLow]
  | cons next rest => cases next <;> simp [joinUnits?, notHigh, notLow]

/-- A character that is not escaped is read as itself. -/
theorem units?_cons {c : Char} (plain : c ≠ '\\') (rest : List Char) :
    units? (c :: rest) = (units? rest).map (.char c :: ·) := by
  rw [units?] <;> simp_all

/-- A character that is written with a short escape is read as itself. -/
theorem units?_short {c meant : Char} (short : shortEscape? c = some meant) (rest : List Char) :
    units? ('\\' :: c :: rest) = (units? rest).map (.char meant :: ·) := by
  have notWord : c ≠ 'u' := by
    rintro rfl
    have none : shortEscape? 'u' = none := by decide
    rw [none] at short
    contradiction
  rw [units?]
  · rw [short]
    cases units? rest <;> rfl
  · intro _ _ _ _ _ same
    exact absurd same notWord

/-- The four digits written for a low character are read as its number. -/
theorem hexWord?_hexDigit {value : Nat} (low : value < 0x20) :
    hexWord? '0' '0' (hexDigit (value / 16)) (hexDigit (value % 16)) = some value := by
  have zero : hexValue? '0' = some 0 := by decide
  simp only [hexWord?, zero, hexValue?_hexDigit (value / 16) (by omega),
    hexValue?_hexDigit (value % 16) (by omega), Option.bind_eq_bind, Option.bind_some,
    Option.pure_def, Option.some.injEq]
  omega

/-- A low character that is written with its number is read as a unit of that number. -/
theorem units?_number {value : Nat} (low : value < 0x20) (rest : List Char) :
    units? ('\\' :: 'u' :: '0' :: '0' :: hexDigit (value / 16) :: hexDigit (value % 16) :: rest) =
      (units? rest).map (.word value :: ·) := by
  rw [units?, hexWord?_hexDigit low]
  cases units? rest <;> rfl

/-- A short escape is read as the character for which it is written. -/
theorem shortEscape?_of_shortName? {c name : Char} (short : shortName? c = some name) :
    shortEscape? name = some c := by
  simp only [shortName?] at short
  repeat'
    split at short
    · rename_i same
      subst same
      obtain rfl := Option.some.inj short
      decide
  contradiction

/-- The backslash has a short escape. -/
theorem ne_backslash_of_shortName? {c : Char} (none : shortName? c = none) : c ≠ '\\' := by
  rintro rfl
  exact absurd none (by decide)

/-- Each written character is read as one unit, which stands for that character. -/
theorem exists_unit_escapeChar (c : Char) :
    ∃ unit, (∀ rest, units? (escapeChar c ++ rest) = (units? rest).map (unit :: ·)) ∧
      ∀ units, joinUnits? (unit :: units) = (joinUnits? units).map (c :: ·) := by
  unfold escapeChar
  split
  · rename_i name short
    exact ⟨.char c, units?_short (shortEscape?_of_shortName? short), fun _ => rfl⟩
  · rename_i none
    split
    · rename_i low
      refine ⟨.word c.toNat, units?_number low, fun units => ?_⟩
      rw [joinUnits?_word (by simp [isHighSurrogate]; omega) (by simp [isLowSurrogate]; omega),
        Char.ofNat_toNat]
    · exact ⟨.char c, units?_cons (ne_backslash_of_shortName? none), fun _ => rfl⟩

/-- A text is read as it was written. -/
theorem unescape?_escape (text : List Char) : unescape? (escape text) = some text := by
  induction text with
  | nil => rfl
  | cons c rest inductionHypothesis =>
    obtain ⟨unit, read, joined⟩ := exists_unit_escapeChar c
    simp only [unescape?, escape, List.flatMap_cons] at inductionHypothesis ⊢
    rw [read]
    cases units : units? (rest.flatMap escapeChar) with
    | none => simp [units] at inductionHypothesis
    | some others =>
      rw [units, Option.bind_some] at inductionHypothesis
      simp [joined, inductionHypothesis]

end Formulary.Json
