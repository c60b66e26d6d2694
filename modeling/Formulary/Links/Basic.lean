import Formulary.IdSet
import Formulary.Links.Traversal
import Formulary.Store.Basic

/-!
# Links between calculations

The links of a store say which calculation depends on which. This file records the links of a
formula, finds everything that depends on a calculation, decides whether new links would close a
circle, and marks dependents stale.
-/

namespace Formulary

/-- What can go wrong with links. -/
inductive LinkError where
  /-- The links run in a circle through this identity. -/
  | cycle (id : Int)
  /-- The store failed. -/
  | store (error : StoreError)
  deriving DecidableEq

/-- The message of a link error. -/
def LinkError.message : LinkError → String
  | .cycle id => "dependency cycle through calculation " ++ toString id
  | .store error => error.message

namespace Links

variable {σ : Type} [Store σ]

/-- Adds a link from `origin` to each of several identities. -/
def addAll (origin : Int) : List Int → Action σ StoreError Unit
  | [] => pure ()
  | destination :: rest => do
    Store.link ⟨origin, destination⟩
    addAll origin rest

/-- Replaces the links that leave `origin` by one link to each dependency. -/
def record (origin : Int) (dependencies : IdSet) : Action σ LinkError Unit :=
  Action.mapError .store do
    Store.unlink origin
    addAll origin dependencies.toList

/-- Everything that depends on an identity, directly or through others, in breadth-first order. An
identity that depends on itself is among them. -/
def downstreamOrder (state : σ) (origin : Int) : Except StoreError (List Int) := do
  let direct ← Store.dependents state origin
  walk (Store.dependents state) ((Store.links state).map (·.origin)) direct

/-- The set of everything that depends on an identity. -/
def downstream (state : σ) (origin : Int) : Except LinkError IdSet :=
  ((downstreamOrder state origin).map IdSet.ofList).mapError .store

/-- Whether the calculation `origin` may depend on these others: neither on itself nor on anything
that depends on it. -/
def ensureAcyclic (origin : Int) (dependencies : IdSet) (state : σ) : Except LinkError Unit := do
  if origin ∈ dependencies then throw (.cycle origin)
  if dependencies.toList = [] then return ()
  let dependents ← downstream state origin
  match dependencies.toList.find? fun id => id ∈ dependents with
  | some culprit => throw (.cycle culprit)
  | none => return ()

/-- Marks the entry under an identity stale, if there is one; the answer says whether there is. -/
def markStale (id : Int) : Action σ StoreError Bool := do
  let found ← Store.fetchRow id
  match found with
  | none => return false
  | some entry =>
    if !entry.stale then
      Store.replace { entry with stale := true, id := some id }
    return true

/-- Marks the entries stale that are reached from a queue, each when it is visited, and answers with
the identities that have one. If `origin` comes up in the queue, the links have led back to it: what
has been visited stays marked, and the circle is reported. `unvisited` holds every identity that may
still be visited. -/
def markReached (origin : Int) (unvisited queue : List Int) : Action σ LinkError (List Int) :=
  -- What has been visited already is passed over. The origin never is.
  match _found : queue.dropWhile fun id => id != origin && !unvisited.contains id with
  | [] => return []
  | node :: rest =>
    if _isOrigin : node = origin then .fail (.cycle origin)
    else do
      let present ← Action.mapError .store (markStale node)
      let following ← Action.mapError .store (.inspect fun state => Store.dependents state node)
      let others ← markReached origin (without node unvisited) (rest ++ following)
      return if present then node :: others else others
termination_by unvisited.length
decreasing_by
  exact length_without_lt (by simpa [_isOrigin] using head_dropWhile _found)

/-- Marks everything stale that depends on `origin`, nearest first, and answers with the identities
of the entries. If the links lead back to `origin`, what comes before it is marked, and then the
circle is reported. -/
def cascade (origin : Int) : Action σ LinkError (List Int) := do
  let direct ← Action.mapError .store (.inspect fun state => Store.dependents state origin)
  let origins ← Action.inspect fun state => .ok ((Store.links state).map (·.origin))
  markReached origin origins direct

end Links

end Formulary
