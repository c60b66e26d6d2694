import Formulary.Number.Binary64
import Formulary.Store.Basic

/-!
# A store in relational tables

The store keeps two tables: one of calculations, keyed by a column that counts up, and one of
relations, keyed by both its columns. A value column holds a real number or nothing: what is no
number is kept as nothing, and a zero loses its sign. Nothing reads back as one and the same value
that is no number, whatever the bits of the value were that was put in. As all such values are one in
this library, it shows what the tables lose of a zero but not what they lose of these.
-/

namespace Formulary

/-- A row of the table of calculations. -/
structure CalculationRow where
  id : Int
  formula : List Char
  /-- The value, or nothing if the value is no number. -/
  result : Option Float
  stale : Bool
  deriving DecidableEq

namespace CalculationRow

/-- The column for a value. -/
def encodeResult (value : Float) : Option Float :=
  if value.isNaN then none else if value == 0 then some 0 else some value

/-- The value of a column. -/
def decodeResult (column : Option Float) : Float :=
  column.getD Number.nan

/-- The row that holds an entry. -/
def ofEntry (id : Int) (entry : Entry) : CalculationRow :=
  ⟨id, entry.formula, encodeResult entry.result, entry.stale⟩

/-- The entry that a row holds. -/
def toEntry (row : CalculationRow) : Entry :=
  ⟨row.formula, decodeResult row.result, row.stale⟩

end CalculationRow

/-- The content of a store in tables: the rows of both, and the highest key handed out. -/
structure Relational where
  calculations : List CalculationRow
  relations : List Link
  sequence : Int
  deriving DecidableEq

/-- The names under which the two tables are made. -/
structure TableNames where
  calculations : List Char
  relations : List Char
  deriving DecidableEq

/-- A name that no table may have. -/
structure InvalidTableName where
  name : List Char
  deriving DecidableEq

/-- The message about a name that no table may have. -/
def InvalidTableName.message (error : InvalidTableName) : String :=
  "invalid table name '" ++ String.ofList error.name ++
    "': only ASCII letters, digits and '_' are allowed"

namespace Relational

/-- A table name is an ASCII letter or `_`, and then ASCII letters, digits and `_`. -/
def isTableName : List Char → Bool
  | [] => false
  | first :: rest =>
    (first.isAlpha || first == '_') && rest.all fun c => c.isAlphanum || c == '_'

/-- The store with newly made tables. The name of the table of calculations is checked first. -/
def create (names : TableNames) : Except InvalidTableName Relational :=
  if !isTableName names.calculations then .error ⟨names.calculations⟩
  else if !isTableName names.relations then .error ⟨names.relations⟩
  else .ok ⟨[], [], 0⟩

/-- Inserts a row under the next key. -/
def save (entry : Entry) : Action Relational StoreError Int :=
  fun store =>
    let id := store.sequence + 1
    (.ok id,
      { store with calculations := store.calculations ++ [.ofEntry id entry], sequence := id })

/-- Selects the row with a key. -/
def fetch (store : Relational) (id : Int) : Except StoreError (Option Entry) :=
  .ok ((store.calculations.find? fun row => row.id == id).map CalculationRow.toEntry)

/-- Updates the row with the key of a calculation. A calculation without key is missing under the key
zero. -/
def replace (calculation : Calculation) : Action Relational StoreError Unit :=
  fun store =>
    match calculation.id with
    | none => (.error (.missingRow 0), store)
    | some id =>
      if store.calculations.any fun row => row.id == id then
        let update := fun row : CalculationRow =>
          if row.id = id then .ofEntry id calculation.toEntry else row
        (.ok (), { store with calculations := store.calculations.map update })
      else
        (.error (.missingRow id), store)

/-- Deletes the row with a key. -/
def remove (id : Int) : Action Relational StoreError Unit :=
  fun store =>
    (.ok (), { store with calculations := store.calculations.filter fun row => row.id != id })

/-- Inserts a relation, unless there is one with the same key. -/
def link (link : Link) : Action Relational StoreError Unit :=
  fun store =>
    if store.relations.contains link then (.ok (), store)
    else (.ok (), { store with relations := store.relations ++ [link] })

/-- Selects the origins of the relations with a destination, in order. -/
def dependents (store : Relational) (id : Int) : Except StoreError (List Int) :=
  let toId := store.relations.filter fun link => link.destination == id
  .ok ((toId.map (·.origin)).mergeSort fun first second => first ≤ second)

/-- Deletes the relations with an origin. -/
def unlink (origin : Int) : Action Relational StoreError Unit :=
  fun store =>
    (.ok (), { store with relations := store.relations.filter fun link => link.origin != origin })

instance : Store Relational where
  save := save
  fetch := fetch
  replace := replace
  remove := remove
  link := link
  dependents := dependents
  unlink := unlink
  rows store :=
    (store.calculations.map fun row => (row.id, row.toEntry)).mergeSort
      fun first second => first.1 ≤ second.1
  links store := store.relations.mergeSort Link.before

end Relational

end Formulary
