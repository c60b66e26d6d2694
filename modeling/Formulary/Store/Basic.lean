import Formulary.Action
import Formulary.Calculation

/-!
# Stores

A store keeps entries under identities that it hands out itself, and the links between them. Every
operation may fail. `Store` is what the engine asks of a store; `rows` and `links` show all that it
holds.
-/

namespace Formulary

/-- What can go wrong in a store. -/
inductive StoreError where
  /-- There is no entry under this identity. -/
  | missingRow (id : Int)
  deriving DecidableEq

/-- The message of a store error. -/
def StoreError.message : StoreError → String
  | .missingRow id => "calculation row " ++ toString id ++ " does not exist"

/-- The operations of a store whose states have type `σ`. -/
class Store (σ : Type) where
  /-- Files a new entry and answers with its identity. -/
  save : Entry → Action σ StoreError Int
  /-- The entry under an identity. -/
  fetch : σ → Int → Except StoreError (Option Entry)
  /-- Replaces the entry of a calculation that is filed already. -/
  replace : Calculation → Action σ StoreError Unit
  /-- Takes the entry under an identity away, if there is one. -/
  remove : Int → Action σ StoreError Unit
  /-- Adds a link, if it is not there. -/
  link : Link → Action σ StoreError Unit
  /-- The origins of the links to an identity, in ascending order. -/
  dependents : σ → Int → Except StoreError (List Int)
  /-- Takes all links away that leave an identity. -/
  unlink : Int → Action σ StoreError Unit
  /-- All entries, in ascending order of their identities. -/
  rows : σ → List (Int × Entry)
  /-- All links, in ascending order. -/
  links : σ → List Link

namespace Store

variable {σ : Type} [Store σ]

/-- Looks up the entry under an identity as a step. -/
def fetchRow (id : Int) : Action σ StoreError (Option Entry) :=
  .inspect fun state => fetch state id

end Store

end Formulary
