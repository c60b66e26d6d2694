import Formulary.Action
import Formulary.Formula.Marker
import Formulary.Number.Layout
import Formulary.Table

/-!
# Values for markers

Before a formula is evaluated, every marker is replaced by the written value of the calculation it
names. A negative value is put in brackets, so that the text around it still splits where it did.
-/

namespace Formulary.Formula

/-- How a value is written into a formula. Either zero is written `0`. -/
def valueText (value : Float) : List Char :=
  match Number.Parts.ofFloat value with
  | .finite _ 0 _ => ['0']
  | .finite true _ _ | .infinite true => '(' :: Number.plainText value ++ [')']
  | _ => Number.plainText value

/-- A formula whose markers have been replaced, and the identities they named. -/
structure Resolved where
  text : List Char
  dependencies : IdSet

/-- The text of segments with every marker replaced by its value. -/
def substitute (valueOf : Int → Option Float) (segments : List Segment) : List Char :=
  segments.flatMap fun
    | .plain c => [c]
    | .marker digits =>
      match (markerId? digits).bind valueOf with
      | some value => valueText value
      | none => []

/-- The identities that a text refers to, none of which may be the text's own. -/
def dependencies (text : List Char) (self : Option Int) : Except Fault IdSet := do
  let ids ← references text
  match self with
  | some id => if id ∈ ids then throw (.selfReference id) else return ids
  | none => return ids

/-- Values for identities, asked for one after the other. The first error ends the asking. -/
def fetchAll {σ ε : Type} (fetch : Int → Action σ ε Float) : List Int → Action σ ε (List (Int × Float))
  | [] => pure []
  | id :: rest => do
    let value ← fetch id
    let others ← fetchAll fetch rest
    return (id, value) :: others

/-- The formula with every marker replaced by the value of the calculation it names. Values are
asked for in ascending order of identities, each once, and not before the markers have been found to
be sound. -/
def resolve {σ ε : Type} (ofFault : Fault → ε) (text : List Char) (self : Option Int)
    (fetch : Int → Action σ ε Float) : Action σ ε Resolved := do
  let ids ← Action.ofExcept ((dependencies text self).mapError ofFault)
  let values ← fetchAll fetch ids.toList
  return ⟨substitute (Table.ofList values).find? (segments text), ids⟩

end Formulary.Formula
