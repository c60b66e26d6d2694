import Formulary.Formula.Error
import Formulary.Text.Offset
import Formulary.Text.Pattern

/-!
# Canonical formulas

A text that is handed in becomes a formula by leaving out its blank characters and writing the
decimal comma as a point. It is accepted if it is made of formula tokens, no two operators follow
each other, the brackets match, and every operator stands between operands. These conditions are
checked in this order, and the first that fails is reported.
-/

namespace Formulary.Formula

open Text

/-! ## Tokens -/

/-- A number: digits, and digits after a point if there is one. -/
def numberPattern : Pattern :=
  .seq (.repeated (.one .digit)) (.optional (.seq (.literal ['.']) (.repeated (.one .digit))))

/-- A number, or a number raised to a number. -/
def powerPattern : Pattern :=
  .seq numberPattern (.optional (.seq (.literal ['^']) numberPattern))

/-- The logarithm of a number to a base. -/
def logarithmPattern : Pattern :=
  .seq (.literal ['l', 'o', 'g', '(']) (.seq numberPattern
    (.seq (.literal [';']) (.seq numberPattern (.literal [')']))))

/-- A reference marker. -/
def markerPattern : Pattern :=
  .seq (.literal ['{']) (.seq (.repeated (.one .digit)) (.literal ['}']))

/-- A token of a formula. -/
def tokenPattern : Pattern :=
  .either logarithmPattern
    (.either powerPattern (.either (.oneOf '+' ['-', '*', '/', '(', ')']) markerPattern))

/-- One token or more. -/
def tokensPattern : Pattern :=
  .repeated tokenPattern

/-- The four operators that stand between operands. -/
def isOperator (c : Char) : Bool :=
  c == '+' || c == '-' || c == '*' || c == '/'

/-! ## Conditions -/

/-- No two operators follow each other. -/
def checkOperators (text : List Char) : Except Fault Unit :=
  match (neighbours 0 text).find? fun (_, first, second) => isOperator first && isOperator second with
  | some (position, first, second) => .error (.adjacentOperators position first second)
  | none => .ok ()

/-- The first bracket fault of a text, given the offset reached, the round brackets open there, and
whether a marker has just been closed. -/
def bracketFault? (offset opened : Nat) (closedMarker : Bool) : List Char → Option BracketFault
  | [] => if opened = 0 then none else some (.unclosed opened)
  | c :: rest =>
    if c = ')' ∧ opened = 0 then some (.unopened offset)
    else if c = '{' ∧ closedMarker then some (.adjacentMarkers offset)
    else
      let opened := if c = '(' then opened + 1 else if c = ')' then opened - 1 else opened
      bracketFault? (offset + c.utf8Size) opened (c == '}') rest

/-- Round brackets match, and no marker follows another directly. -/
def checkBrackets (text : List Char) : Except Fault Unit :=
  match bracketFault? 0 0 false text with
  | some fault => .error (.brackets fault)
  | none => .ok ()

/-- An operand may end with this character. -/
def endsOperand (c : Char) : Bool :=
  isAsciiDigit c || c == ')' || c == '}'

/-- An operand that is not a number begins with this character. -/
def beginsGroup (c : Char) : Bool :=
  c == '(' || c == '{' || c == 'l'

/-- Two operands meet with no operator between them. -/
def joinsOperands (first second : Char) : Bool :=
  (endsOperand first && beginsGroup second) || ((first == ')' || first == '}') && isAsciiDigit second)

/-- A bracket stands where an operand is missing. -/
def missesOperand (first second : Char) : Bool :=
  (first == '(' && (second == ')' || second == '*' || second == '/')) ||
    (isOperator first && second == ')')

/-- The text does not begin with `*` or `/`. -/
def checkFirst (text : List Char) : Except Fault Unit :=
  match text.head? with
  | some c => if c = '*' ∨ c = '/' then .error (.leadingOperator text c) else .ok ()
  | none => .ok ()

/-- The text does not end with an operator. -/
def checkLast (text : List Char) : Except Fault Unit :=
  match text.getLast? with
  | some c => if isOperator c then .error (.trailingOperator text c) else .ok ()
  | none => .ok ()

/-- No two neighbouring characters leave out an operator or an operand. -/
def checkNeighbours (text : List Char) : Except Fault Unit :=
  let misplaced := (neighbours 0 text).find? fun (_, first, second) =>
    joinsOperands first second || missesOperand first second
  match misplaced with
  | some (position, first, second) => .error (.misplaced text first second position)
  | none => .ok ()

/-! ## Acceptance -/

/-- The text without blank characters and with a point for every comma. -/
def canonicalText (raw : List Char) : List Char :=
  (raw.filter fun c => !isBlank c).map fun c => if c = ',' then '.' else c

/-- The formula that a text spells, or the first fault in it. -/
def canonical (raw : List Char) : Except Fault (List Char) := do
  let text := canonicalText raw
  if text = [] then throw .empty
  if !tokensPattern.accepts text then throw (.unknownToken text)
  checkOperators text
  checkBrackets text
  checkFirst text
  checkLast text
  checkNeighbours text
  return text

end Formulary.Formula
