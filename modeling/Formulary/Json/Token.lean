import Formulary.Json.Numeral
import Formulary.Json.Quoted

/-!
# Tokens of JSON

A JSON text is a row of tokens with blanks between them. Strings are kept as they are written
between their quotes and numbers as they are written, so that a token can be passed over without
being read.
-/

namespace Formulary.Json

/-- A token of a JSON text. -/
inductive Token where
  | openArray
  | closeArray
  | openObject
  | closeObject
  | comma
  | colon
  | null
  | bool (value : Bool)
  | number (text : List Char)
  | string (written : List Char)
  deriving DecidableEq

/-- The four blanks that may stand between tokens. -/
def isSpace (c : Char) : Bool :=
  c == ' ' || c == '\n' || c == '\t' || c == '\r'

/-- The characters that numbers are made of. -/
def isNumberChar (c : Char) : Bool :=
  Text.isAsciiDigit c || c == '+' || c == '-' || c == '.' || c == 'e' || c == 'E'

/-- What is written up to the closing quote, and the text after the quote. An escape is only checked
for its form, and a character below the blank is refused. -/
def splitQuoted? : List Char → Option (List Char × List Char)
  | [] => none
  | '"' :: rest => some ([], rest)
  | '\\' :: 'u' :: a :: b :: c :: d :: rest =>
    if (hexWord? a b c d).isSome then
      (splitQuoted? rest).map fun (written, after) =>
        ('\\' :: 'u' :: a :: b :: c :: d :: written, after)
    else none
  | '\\' :: c :: rest =>
    if (shortEscape? c).isSome then
      (splitQuoted? rest).map fun (written, after) => ('\\' :: c :: written, after)
    else none
  | ['\\'] => none
  | c :: rest =>
    if c.toNat < 0x20 then none
    else (splitQuoted? rest).map fun (written, after) => (c :: written, after)

/-- A string leaves less text than there was after its opening quote. -/
theorem length_of_splitQuoted? {text written after : List Char}
    (split : splitQuoted? text = some (written, after)) : after.length < text.length := by
  induction text using splitQuoted?.induct generalizing written after with
  | case1 => simp [splitQuoted?] at split
  | case2 rest =>
    rw [splitQuoted?] at split
    obtain ⟨-, rfl⟩ := Prod.mk.inj (Option.some.inj split)
    simp
  | case3 a b c d rest escape inductionHypothesis =>
    rw [splitQuoted?, if_pos escape, Option.map_eq_some_iff] at split
    obtain ⟨⟨inner, later⟩, found, same⟩ := split
    obtain ⟨-, rfl⟩ := Prod.mk.inj same
    have := inductionHypothesis found
    simp only [List.length_cons]
    omega
  | case4 a b c d rest noEscape =>
    rw [splitQuoted?, if_neg noEscape] at split
    contradiction
  | case5 c rest noWord escape inductionHypothesis =>
    rw [splitQuoted?, if_pos escape, Option.map_eq_some_iff] at split
    · obtain ⟨⟨inner, later⟩, found, same⟩ := split
      obtain ⟨-, rfl⟩ := Prod.mk.inj same
      have := inductionHypothesis found
      simp only [List.length_cons]
      omega
    · exact noWord
  | case6 c rest noWord noEscape =>
    rw [splitQuoted?, if_neg noEscape] at split
    · contradiction
    · exact noWord
  | case7 => simp [splitQuoted?] at split
  | case8 c rest noQuote noWord noEscape noEnd low =>
    rw [splitQuoted?, if_pos low] at split
    · contradiction
    · exact noQuote
    all_goals simp_all
  | case9 c rest noQuote noWord noEscape noEnd high inductionHypothesis =>
    rw [splitQuoted?, if_neg high, Option.map_eq_some_iff] at split
    · obtain ⟨⟨inner, later⟩, found, same⟩ := split
      obtain ⟨-, rfl⟩ := Prod.mk.inj same
      have := inductionHypothesis found
      simp only [List.length_cons]
      omega
    · exact noQuote
    all_goals simp_all

/-- The token that one character spells. -/
def punctuation? (c : Char) : Option Token :=
  if c = '[' then some .openArray
  else if c = ']' then some .closeArray
  else if c = '{' then some .openObject
  else if c = '}' then some .closeObject
  else if c = ',' then some .comma
  else if c = ':' then some .colon
  else none

/-- The token that a word of letters spells. -/
def word? (letters : List Char) : Option Token :=
  if letters = ['n', 'u', 'l', 'l'] then some .null
  else if letters = ['t', 'r', 'u', 'e'] then some (.bool true)
  else if letters = ['f', 'a', 'l', 's', 'e'] then some (.bool false)
  else none

/-- The token that a text beginning with neither a blank nor a quote begins with, and the text after
it. -/
def splitToken? (c : Char) (rest : List Char) : Option (Token × List Char) :=
  match punctuation? c with
  | some token => some (token, rest)
  | none =>
    if c = '-' ∨ Text.isAsciiDigit c then
      let text := c :: rest.takeWhile isNumberChar
      (Numeral.ofText? text).map fun _ => (.number text, rest.dropWhile isNumberChar)
    else
      (word? (c :: rest.takeWhile Char.isAlpha)).map fun token => (token, rest.dropWhile Char.isAlpha)

/-- A token leaves no more text than there was after its first character. -/
theorem length_of_splitToken? {c : Char} {rest after : List Char} {token : Token}
    (split : splitToken? c rest = some (token, after)) : after.length ≤ rest.length := by
  have shorter (p : Char → Bool) : (rest.dropWhile p).length ≤ rest.length :=
    (List.dropWhile_suffix p).length_le
  rw [splitToken?] at split
  split at split
  · obtain ⟨-, rfl⟩ := Prod.mk.inj (Option.some.inj split)
    exact Nat.le_refl _
  · split at split <;>
    · rw [Option.map_eq_some_iff] at split
      obtain ⟨_, _, same⟩ := split
      obtain ⟨-, rfl⟩ := Prod.mk.inj same
      exact shorter _

/-- The tokens of a text, or `none` if it is not made of tokens. -/
def tokens? : List Char → Option (List Token)
  | [] => some []
  | c :: rest =>
    if isSpace c then tokens? rest
    else if c = '"' then
      match _split : splitQuoted? rest with
      | none => none
      | some (written, after) => (tokens? after).map (.string written :: ·)
    else
      match _split : splitToken? c rest with
      | none => none
      | some (token, after) => (tokens? after).map (token :: ·)
termination_by text => text.length
decreasing_by
  · simp
  · have := length_of_splitQuoted? _split
    simp only [List.length_cons]
    omega
  · have := length_of_splitToken? _split
    simp only [List.length_cons]
    omega

end Formulary.Json
