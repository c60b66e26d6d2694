import Formulary.Formula.Bracket
import Formulary.Number.Reader

/-!
# How a formula is taken apart

A text without markers is a number, or a bracketed text, or two texts with an operator between them,
or a sign and a text, or a logarithm. `shape?` says which of these a text is under a given policy,
and cuts it into its parts. The answer `none` means that a cut did not fall between two characters.
-/

namespace Formulary.Formula

open Text

/-- Which operator is applied last where several of one precedence stand side by side. -/
inductive SplitPolicy where
  /-- The first `+`, or the first `-` if there is no `+`; likewise `*` before `/`. -/
  | legacy
  /-- The last operator of either kind, as usual in arithmetic. -/
  | leftAssociative
  deriving DecidableEq

/-- The operators of arithmetic. -/
inductive Operator where
  | add
  | subtract
  | multiply
  | divide
  deriving DecidableEq

/-- The character that is written for an operator. -/
def Operator.symbol : Operator → Char
  | .add => '+'
  | .subtract => '-'
  | .multiply => '*'
  | .divide => '/'

/-- A text and how it is to be evaluated. -/
inductive Shape where
  /-- A number. -/
  | number (value : Float)
  /-- A text in brackets. -/
  | wrapped (inner : List Char)
  /-- An operator between two texts. -/
  | binary (operator : Operator) (left right : List Char)
  /-- One text raised to the power given by another. -/
  | power (base exponent : List Char)
  /-- A sign before a text; `-` negates. -/
  | signed (negative : Bool) (rest : List Char)
  /-- The logarithm of one text to the base given by another. -/
  | logarithm (argument base : List Char)
  /-- None of these. -/
  | malformed

/-- The number that a text spells: an optional sign and then digits and points, or `inf` or `NaN`. -/
def literal? (text : List Char) : Option Float :=
  let body := (Number.splitSign text).2
  if (body ≠ [] ∧ body.all fun c => isAsciiDigit c || c == '.') ∨
      body = ['i', 'n', 'f'] ∨ body = ['N', 'a', 'N'] then
    Number.readFloat? text
  else
    none

/-- The operator that splits a text at one level of precedence, and its offset. -/
def splitPoint? (policy : SplitPolicy) (text : List Char) (preferred other : Operator) :
    Option (Nat × Operator) :=
  let preferredOffsets := binaryOffsets text preferred.symbol
  let otherOffsets := binaryOffsets text other.symbol
  match policy with
  | .legacy =>
    match preferredOffsets.head?, otherOffsets.head? with
    | some offset, _ => some (offset, preferred)
    | none, some offset => some (offset, other)
    | none, none => none
  | .leftAssociative =>
    match preferredOffsets.getLast?, otherOffsets.getLast? with
    | some offset, some otherOffset =>
      if otherOffset < offset then some (offset, preferred) else some (otherOffset, other)
    | some offset, none => some (offset, preferred)
    | none, some otherOffset => some (otherOffset, other)
    | none, none => none

/-- The parts before and after the character of one byte at an offset. -/
def cutAt? (text : List Char) (offset : Nat) : Option (List Char × List Char) := do
  let left ← slice? text 0 offset
  let right ← slice? text (offset + 1) (byteLength text)
  return (left, right)

/-- How a text is split at the operators of lowest precedence that stand outside all brackets, if
there is any; a power is split at the first `^`. -/
def split? (policy : SplitPolicy) (text : List Char) : Option (Option Shape) :=
  match splitPoint? policy text .add .subtract <|> splitPoint? policy text .multiply .divide with
  | some (offset, operator) =>
    some ((cutAt? text offset).map fun (left, right) => .binary operator left right)
  | none =>
    (binaryOffsets text '^').head?.map fun offset =>
      (cutAt? text offset).map fun (base, exponent) => .power base exponent

/-- The two arguments of a logarithm: what stands before and after the first semicolon. -/
def splitArguments? (text : List Char) : Option (List Char × List Char) :=
  match text.dropWhile (· ≠ ';') with
  | _ :: after => some (text.takeWhile (· ≠ ';'), after)
  | [] => none

/-- The logarithm whose name stands at an offset. Its brackets have to enclose all that follows the
name, and its name has to begin the text. -/
def cutLogarithm (text : List Char) (offset : Nat) (pairs : List (Nat × Nat)) : Option Shape :=
  let opening := offset + 3
  match pairs.find? (·.1 == opening) with
  | none => some .malformed
  | some (_, closing) =>
    if offset = 0 ∧ closing = byteLength text - 1 then
      (slice? text (opening + 1) closing).map fun arguments =>
        match splitArguments? arguments with
        | some (argument, base) => .logarithm argument base
        | none => .malformed
    else
      some .malformed

/-- How a text is to be evaluated. -/
def shape? (policy : SplitPolicy) (text : List Char) : Option Shape :=
  if text = [] then some .malformed
  else
    match literal? text with
    | some value => some (.number value)
    | none =>
      match bracketPairs text with
      | none => some .malformed
      | some pairs =>
        if isWrapped text pairs then
          (slice? text 1 (byteLength text - 1)).map .wrapped
        else
          match split? policy text with
          | some cut => cut
          | none =>
            match text with
            | '-' :: rest => some (.signed true rest)
            | '+' :: rest => some (.signed false rest)
            | _ =>
              match outerLogarithm? text with
              | some offset => cutLogarithm text offset pairs
              | none => some .malformed

end Formulary.Formula
