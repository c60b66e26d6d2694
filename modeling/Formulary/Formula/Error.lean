import Formulary.IdSet

/-!
# Faults of formulas

What can be wrong with a formula, when it is handed in and when it is evaluated, and the messages
that say so.
-/

namespace Formulary.Formula

/-- What can be wrong with the brackets of a text that is made of formula tokens. Positions count
bytes. -/
inductive BracketFault where
  /-- A `)` to which no `(` belongs. -/
  | unopened (position : Nat)
  /-- A reference marker directly after another one. -/
  | adjacentMarkers (position : Nat)
  /-- This many `(` to which no `)` belongs. -/
  | unclosed (count : Nat)
  deriving DecidableEq

/-- The message of a bracket fault. -/
def BracketFault.message : BracketFault → String
  | .unopened position => "')' at position " ++ toString position ++ " has no matching '('"
  | .adjacentMarkers position =>
    "reference markers cannot follow each other (position " ++ toString position ++ ")"
  | .unclosed count => toString count ++ " '(' left open"

/-- What can be wrong with a formula. -/
inductive Fault where
  /-- The text handed in is blank. -/
  | empty
  /-- The text is not made of formula tokens. -/
  | unknownToken (text : List Char)
  /-- The text begins with `*` or `/`. -/
  | leadingOperator (text : List Char) (operator : Char)
  /-- The text ends with an operator. -/
  | trailingOperator (text : List Char) (operator : Char)
  /-- Two neighbouring characters that leave out an operator or an operand. -/
  | misplaced (text : List Char) (first second : Char) (position : Nat)
  /-- The digits of a reference marker do not spell an identity. -/
  | markerRange (digits : List Char)
  /-- Two operators, one directly after the other. -/
  | adjacentOperators (position : Nat) (first second : Char)
  /-- The brackets do not match. -/
  | brackets (fault : BracketFault)
  /-- The formula of a calculation refers to that calculation. -/
  | selfReference (id : Int)
  /-- The text is a quotient whose divisor is zero. -/
  | divisionByZero (text : List Char)
  /-- The text is neither a number nor made up of parts that could be evaluated. -/
  | malformed (text : List Char)
  /-- Evaluation would need more than this many levels. -/
  | tooDeep (limit : Nat)
  /-- An offset at which the text was to be cut does not fall between two of its characters. -/
  | uncuttable (text : List Char)
  deriving DecidableEq

namespace Fault

/-- The message about a text that is no formula. -/
def invalidMessage (detail : String) : String :=
  "the expression contains invalid symbols or characters: '" ++ detail ++ "'"

/-- The message of a fault. -/
def message : Fault → String
  | .empty => "the expression is empty"
  | .unknownToken text => invalidMessage (String.ofList text)
  | .leadingOperator text operator =>
    invalidMessage (String.ofList text ++ ": leading '" ++ String.ofList [operator] ++ "'")
  | .trailingOperator text operator =>
    invalidMessage (String.ofList text ++ ": trailing '" ++ String.ofList [operator] ++ "'")
  | .misplaced text first second position =>
    invalidMessage (String.ofList text ++ ": '" ++ String.ofList [first, second] ++
      "' at position " ++ toString position)
  | .markerRange digits => invalidMessage (String.ofList ('{' :: digits ++ ['}']))
  | .adjacentOperators position first second =>
    "operators '" ++ String.ofList [first, second] ++ "' follow each other at position " ++
      toString position
  | .brackets fault =>
    "the brackets in the expression are not formatted correctly: " ++ fault.message
  | .selfReference id =>
    "an expression cannot refer to itself (calculation " ++ toString id ++ ")"
  | .divisionByZero text => "division by zero in '" ++ String.ofList text ++ "'"
  | .malformed text => "cannot evaluate '" ++ String.ofList text ++ "'"
  | .tooDeep limit => "expression nesting exceeds " ++ toString limit ++ " levels"
  | .uncuttable text => "cannot cut '" ++ String.ofList text ++ "'"

/-- Whether the fault lies in the text that was handed in, and not in the values it was evaluated
with. -/
def isInputFault : Fault → Bool
  | .divisionByZero _ | .malformed _ | .tooDeep _ | .uncuttable _ => false
  | _ => true

end Fault

end Formulary.Formula
