import Formulary.Number.Binary64

/-!
# Reading a double

A written double is a sign, if any, and then a decimal or one of the words for infinity and for no
number. A decimal has digits on at least one side of an optional point, and an optional exponent.
The double nearest to the decimal is read.
-/

namespace Formulary.Number

/-- A sign in front, if there is one, and the text after it. -/
def splitSign : List Char → Bool × List Char
  | '-' :: rest => (true, rest)
  | '+' :: rest => (false, rest)
  | text => (false, text)

/-- The exponent that a text spells: `e` or `E`, a sign if any, and digits. Nothing at all spells
the exponent zero. -/
def readExponent? : List Char → Option Int
  | [] => some 0
  | mark :: rest =>
    if mark = 'e' ∨ mark = 'E' then
      let (negative, digits) := splitSign rest
      if digits ≠ [] ∧ digits.all Text.isAsciiDigit then
        let size : Int := Text.digitsValue digits
        some (if negative then -size else size)
      else none
    else none

/-- The digits after a decimal point, if there is one, and the text after them. -/
def splitFraction : List Char → List Char × List Char
  | '.' :: rest => (rest.takeWhile Text.isAsciiDigit, rest.dropWhile Text.isAsciiDigit)
  | text => ([], text)

/-- The decimal that a text without sign spells. -/
def readDecimal? (text : List Char) : Option Decimal :=
  let whole := text.takeWhile Text.isAsciiDigit
  let (fraction, rest) := splitFraction (text.dropWhile Text.isAsciiDigit)
  if whole = [] ∧ fraction = [] then none
  else (readExponent? rest).map fun exponent => .ofDigits whole fraction exponent

/-- The words for infinity and for no number, in small letters. -/
def readWord? (negative : Bool) (word : List Char) : Option Float :=
  if word = ['i', 'n', 'f'] ∨ word = ['i', 'n', 'f', 'i', 'n', 'i', 't', 'y'] then
    some (infinity negative)
  else if word = ['n', 'a', 'n'] then
    some nan
  else none

/-- The double that a text spells. The words may be written in capitals. -/
def readFloat? (text : List Char) : Option Float :=
  let (negative, unsigned) := splitSign text
  match readWord? negative (unsigned.map Char.toLower) with
  | some word => some word
  | none => (readDecimal? unsigned).map (·.toFloat negative)

example : readFloat? "0.1".toList = some 0.1 ∧ readFloat? "-.5e1".toList = some (-5) := by
  decide +kernel

/-- A decimal half-way between two doubles is read as the one with the even significand. -/
example : readFloat? "9007199254740993".toList = some 9007199254740992 := by decide +kernel

example : readFloat? ".".toList = none ∧ readFloat? "1e".toList = none := by decide +kernel

end Formulary.Number
