import Mathlib.Data.List.Sort
import Formulary.Proofs.Store.Memory

/-!
# Stores are what is found in them

Entries stand in ascending order, so a table is determined by what is found under each identity. Two
stores in memory are the same if the same is found in both and they have the same links.
-/

namespace Formulary

namespace Table

variable {α : Type}

theorem mem_iff_findIn {entries : List (Int × α)} {id : Int} {value : α}
    (ascending : (entries.map Prod.fst).Pairwise (· < ·)) :
    (id, value) ∈ entries ↔ findIn id entries = some value := by
  induction entries with
  | nil => simp [findIn]
  | cons entry rest inductionHypothesis =>
    obtain ⟨first, other⟩ := entry
    rw [List.map_cons, List.pairwise_cons] at ascending
    rw [List.mem_cons, findIn, inductionHypothesis ascending.2]
    split
    · rename_i same
      subst same
      -- Nothing else is filed under the first identity.
      have absent : findIn first rest ≠ some value := by
        intro found
        have member := (inductionHypothesis ascending.2).mpr found
        exact Int.lt_irrefl first (ascending.1 first (List.mem_map_of_mem member))
      simp [absent, eq_comm]
    · rename_i different
      simp [Ne.symm different]

/-- Tables in which the same is found are the same. -/
theorem eq_of_find? {first second : Table α} (same : ∀ id, first.find? id = second.find? id) :
    first = second := by
  obtain ⟨entries, ascending⟩ := first
  obtain ⟨others, ascendingOthers⟩ := second
  have inOrder : ∀ {entries : List (Int × α)}, (entries.map Prod.fst).Pairwise (· < ·) →
      entries.Pairwise fun entry other => entry.1 < other.1 := List.pairwise_map.mp
  have irrefl : Std.Irrefl fun entry other : Int × α => entry.1 < other.1 :=
    ⟨fun _ => Int.lt_irrefl _⟩
  have antisymm : Std.Antisymm fun entry other : Int × α => entry.1 < other.1 :=
    ⟨fun _ _ below above => absurd below (Int.lt_asymm above)⟩
  have equal : entries = others := by
    apply (inOrder ascending).eq_of_mem_iff (inOrder ascendingOthers)
    rintro ⟨id, value⟩
    rw [mem_iff_findIn ascending, mem_iff_findIn ascendingOthers]
    exact Eq.congr_left (same id)
  subst equal
  rfl

end Table

namespace Memory

theorem eq_of_find? {first second : Memory}
    (same : ∀ id, first.table.find? id = second.table.find? id)
    (sameLinks : first.linkList = second.linkList) (sameLast : first.lastId = second.lastId) :
    first = second := by
  obtain ⟨table, links, lastId⟩ := first
  obtain ⟨other, otherLinks, otherLast⟩ := second
  cases sameLinks
  cases sameLast
  exact congrArg (Memory.mk · links lastId) (Table.eq_of_find? same)

/-- Filing what is filed already changes nothing. -/
theorem file_eq_self {memory : Memory} {id : Int} {entry : Entry}
    (filed : memory.table.find? id = some entry) : memory.file id entry = memory := by
  refine eq_of_find? (fun other => ?_) rfl rfl
  rw [find?_file]
  split
  · rename_i same
    rw [same, filed]
  · rfl

end Memory

end Formulary
