/-!
# Walking along links

A breadth-first walk visits everything that can be reached from a queue of identities, each identity
once. The walk keeps the list of identities that it has not visited yet. That list shrinks with every
visit, so the walk ends, also where links run in a circle.
-/

namespace Formulary.Links

variable {ε : Type}

/-- What a list has left once its first unwanted items are dropped begins with a wanted item. -/
theorem head_dropWhile {p : Int → Bool} {ids rest : List Int} {node : Int}
    (dropped : ids.dropWhile p = node :: rest) : p node = false := by
  induction ids with
  | nil => simp at dropped
  | cons first others inductionHypothesis =>
    rw [List.dropWhile_cons] at dropped
    split at dropped
    · exact inductionHypothesis dropped
    · rename_i wanted
      obtain ⟨rfl, -⟩ := List.cons.inj dropped
      simpa using wanted

/-- A list without all occurrences of an identity. -/
def without (node : Int) (ids : List Int) : List Int :=
  ids.filter (· != node)

/-- Leaving out a member makes a list shorter. -/
theorem length_without_lt {node : Int} {ids : List Int} (member : node ∈ ids) :
    (without node ids).length < ids.length :=
  List.length_filter_lt_length_iff_exists.2 ⟨node, member, by simp⟩

/-- The identities reached from a queue, in the order in which they are visited. `next` gives what
follows an identity directly, and `unvisited` holds every identity that may still be visited. -/
def walk (next : Int → Except ε (List Int)) (unvisited queue : List Int) : Except ε (List Int) :=
  match _found : queue.dropWhile fun id => !unvisited.contains id with
  | [] => .ok []
  | node :: rest => do
    let following ← next node
    let later ← walk next (without node unvisited) (rest ++ following)
    return node :: later
termination_by unvisited.length
decreasing_by
  exact length_without_lt (by simpa using head_dropWhile _found)

end Formulary.Links
