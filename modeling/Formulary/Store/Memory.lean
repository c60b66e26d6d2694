import Formulary.IdSet
import Formulary.Store.Basic
import Formulary.Table

/-!
# A store in memory

Entries in a table, links in a list, and the last identity that was handed out. Identities count up
from one and are not handed out again after their entries are gone. They are unbounded here. A
counter of 64 bits hands out the same ones, as no run files as many as 2 ^ 63 entries.
-/

namespace Formulary

/-- The content of a store in memory. -/
structure Memory where
  table : Table Entry
  linkList : List Link
  lastId : Int

namespace Memory

/-- The store that nothing has been filed in. -/
def empty : Memory :=
  ⟨.empty, [], 0⟩

/-- Files a new entry under the identity after the last one. -/
def save (entry : Entry) : Action Memory StoreError Int :=
  fun memory =>
    let id := memory.lastId + 1
    (.ok id, { memory with table := memory.table.insert id entry, lastId := id })

/-- The entry under an identity. -/
def fetch (memory : Memory) (id : Int) : Except StoreError (Option Entry) :=
  .ok (memory.table.find? id)

/-- Replaces the entry under the identity of a calculation. A calculation without identity is missing
under the identity zero. -/
def replace (calculation : Calculation) : Action Memory StoreError Unit :=
  fun memory =>
    match calculation.id with
    | none => (.error (.missingRow 0), memory)
    | some id =>
      match memory.table.find? id with
      | none => (.error (.missingRow id), memory)
      | some _ => (.ok (), { memory with table := memory.table.insert id calculation.toEntry })

/-- Takes the entry under an identity away. -/
def remove (id : Int) : Action Memory StoreError Unit :=
  fun memory => (.ok (), { memory with table := memory.table.erase id })

/-- Adds a link, if it is not there. -/
def link (link : Link) : Action Memory StoreError Unit :=
  fun memory =>
    if link ∈ memory.linkList then (.ok (), memory)
    else (.ok (), { memory with linkList := memory.linkList ++ [link] })

/-- The origins of the links to an identity. -/
def dependents (memory : Memory) (id : Int) : Except StoreError (List Int) :=
  let toId := memory.linkList.filter fun link => link.destination == id
  .ok (IdSet.ofList (toId.map (·.origin))).toList

/-- Takes all links away that leave an identity. -/
def unlink (origin : Int) : Action Memory StoreError Unit :=
  fun memory =>
    (.ok (), { memory with linkList := memory.linkList.filter fun link => link.origin != origin })

instance : Store Memory where
  save := save
  fetch := fetch
  replace := replace
  remove := remove
  link := link
  dependents := dependents
  unlink := unlink
  rows memory := memory.table.entries
  links memory := memory.linkList.mergeSort Link.before

end Memory

end Formulary
