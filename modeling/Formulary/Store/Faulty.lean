import Formulary.Store.Basic

/-!
# A store that fails on demand

A store around another one, some of whose operations fail before they do anything, and do so on every
call. The error names the identity that the operation was about.
-/

namespace Formulary

/-- The operations of a store that can fail on demand, by name. Running several of them as one,
`Action.atomically`, is not among them: it begins and ends without failing itself. -/
inductive StoreMethod where
  | save
  | fetch
  | replace
  | remove
  | link
  | dependents
  | unlink
  deriving DecidableEq

/-- A store and the operations of it that fail. -/
structure Faulty (σ : Type) where
  inner : σ
  failing : List StoreMethod

namespace Faulty

variable {σ α : Type}

/-- A step of the inner store, unless it is one of those that fail. -/
def guarded (method : StoreMethod) (id : Int) (step : Action σ StoreError α) :
    Action (Faulty σ) StoreError α :=
  fun store =>
    if method ∈ store.failing then (.error (.missingRow id), store)
    else ((step store.inner).1, { store with inner := (step store.inner).2 })

/-- A look into the inner store, unless it is one of those that fail. -/
def guardedLook (method : StoreMethod) (id : Int) (look : σ → Except StoreError α)
    (store : Faulty σ) : Except StoreError α :=
  if method ∈ store.failing then .error (.missingRow id) else look store.inner

instance [Store σ] : Store (Faulty σ) where
  save entry := guarded .save 0 (Store.save entry)
  fetch store id := guardedLook .fetch id (Store.fetch · id) store
  replace calculation := guarded .replace (calculation.id.getD 0) (Store.replace calculation)
  remove id := guarded .remove id (Store.remove id)
  link link := guarded .link link.destination (Store.link link)
  dependents store id := guardedLook .dependents id (Store.dependents · id) store
  unlink origin := guarded .unlink origin (Store.unlink origin)
  rows store := Store.rows store.inner
  links store := Store.links store.inner

/-- The same store with other operations failing from now on. -/
def withFailing (store : Faulty σ) (failing : List StoreMethod) : Faulty σ :=
  { store with failing }

end Faulty

end Formulary
