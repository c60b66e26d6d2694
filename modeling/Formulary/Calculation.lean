import Formulary.Formula.Marker

/-!
# Calculations

An entry is a formula together with the value it had when it was last evaluated; it is stale if that
value may have changed since. A calculation is an entry with its identity, if it has been given one.
A link says that the formula of one calculation refers to another.
-/

namespace Formulary

/-- A formula with its last value. -/
structure Entry where
  formula : List Char
  result : Float
  stale : Bool
  deriving DecidableEq

/-- An entry and its identity, once it has one. -/
structure Calculation extends Entry where
  id : Option Int
  deriving DecidableEq

/-- The calculation that is filed under an identity. -/
def Entry.withId (entry : Entry) (id : Int) : Calculation :=
  { entry with id := some id }

namespace Calculation

/-- A calculation that has not been stored. It is stale until it is evaluated. -/
def new (formula : List Char) : Calculation :=
  { formula, result := 0, stale := true, id := none }

/-- Gives a calculation its identity. An identity once given stays; the answer says whether the
calculation took the new one. -/
def assign (calculation : Calculation) (id : Int) : Bool × Calculation :=
  match calculation.id with
  | some _ => (false, calculation)
  | none => (true, { calculation with id := some id })

/-- The identities that the formula refers to. -/
def references (calculation : Calculation) : Except Formula.Fault IdSet :=
  Formula.references calculation.formula

end Calculation

/-- The formula of `origin` refers to `destination`. -/
structure Link where
  origin : Int
  destination : Int
  deriving DecidableEq

/-- The order of links: by origin, then by destination. -/
def Link.before (first second : Link) : Bool :=
  first.origin < second.origin ||
    (first.origin == second.origin && first.destination ≤ second.destination)

end Formulary
