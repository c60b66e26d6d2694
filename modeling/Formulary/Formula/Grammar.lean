import Formulary.Formula.Shape

/-!
# Formulas as trees

The trees that formulas are written from. A chain is a row of terms with operators between them and
perhaps a sign before the first; a term is a number, a power of two numbers, a logarithm of two
numbers, a reference marker, or a chain in brackets. `Chain.text` writes a tree as a formula.
-/

namespace Formulary.Formula

/-- A number as it is written: at least one digit, and digits after a point, if there is one. -/
structure Numeral where
  first : Fin 10
  others : List (Fin 10)
  /-- The digits after the point; there is no point if there are none. -/
  fraction : List (Fin 10)
  deriving DecidableEq

/-- A term of a chain. -/
inductive Term where
  | number (numeral : Numeral)
  | power (base exponent : Numeral)
  | logarithm (argument base : Numeral)
  /-- A reference marker with the digits between its brackets. -/
  | marker (first : Fin 10) (others : List (Fin 10))
  /-- A chain in brackets: its sign, its first term, and the others with the operators before them. -/
  | group (sign : Option Bool) (first : Term) (rest : List (Operator × Term))

/-- A row of terms. The sign `some true` is a minus, `some false` a plus. -/
structure Chain where
  sign : Option Bool
  first : Term
  rest : List (Operator × Term)

/-- The character of a digit. -/
def digitChar (digit : Fin 10) : Char :=
  Nat.digitChar digit

/-- A number as text. -/
def Numeral.text (numeral : Numeral) : List Char :=
  let whole := (numeral.first :: numeral.others).map digitChar
  if numeral.fraction = [] then whole else whole ++ '.' :: numeral.fraction.map digitChar

/-- A sign as text. -/
def signText : Option Bool → List Char
  | none => []
  | some negative => [if negative then '-' else '+']

mutual

/-- A term as text. -/
def Term.text : Term → List Char
  | .number numeral => numeral.text
  | .power base exponent => base.text ++ '^' :: exponent.text
  | .logarithm argument base =>
    ['l', 'o', 'g', '('] ++ argument.text ++ ';' :: base.text ++ [')']
  | .marker first others => '{' :: (first :: others).map digitChar ++ ['}']
  | .group sign first rest => '(' :: (signText sign ++ first.text ++ restText rest) ++ [')']

/-- Terms with the operators before them as text. -/
def restText : List (Operator × Term) → List Char
  | [] => []
  | (operator, term) :: rest => operator.symbol :: term.text ++ restText rest

end

/-- A chain as text. -/
def Chain.text (chain : Chain) : List Char :=
  signText chain.sign ++ chain.first.text ++ restText chain.rest

end Formulary.Formula
