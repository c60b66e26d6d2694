/-!
# Tables

A table files values under identities. Its entries stand in ascending order of their identities, and
no identity comes twice. The main statements, `find?_insert` and `find?_erase`, say what is found
after a change.
-/

namespace Formulary

/-- Values filed under identities. -/
structure Table (α : Type) where
  entries : List (Int × α)
  ascending : (entries.map Prod.fst).Pairwise (· < ·)

namespace Table

variable {α : Type}

/-- No entries are in ascending order. -/
theorem ascending_nil : (([] : List (Int × α)).map Prod.fst).Pairwise (· < ·) :=
  .nil

/-- The table without entries. -/
def empty : Table α :=
  ⟨[], ascending_nil⟩

/-- The identities under which something is filed, in ascending order. -/
def ids (table : Table α) : List Int :=
  table.entries.map Prod.fst

/-- The number of entries. -/
def size (table : Table α) : Nat :=
  table.entries.length

/-- The value of the first entry under an identity. -/
def findIn (id : Int) : List (Int × α) → Option α
  | [] => none
  | (first, value) :: rest => if first = id then some value else findIn id rest

/-- The value filed under an identity. -/
def find? (table : Table α) (id : Int) : Option α :=
  findIn id table.entries

/-- Entries with a value filed under an identity, in place of the one that was there. -/
def insertInto (id : Int) (value : α) : List (Int × α) → List (Int × α)
  | [] => [(id, value)]
  | (first, old) :: rest =>
    if id < first then (id, value) :: (first, old) :: rest
    else if first = id then (id, value) :: rest
    else (first, old) :: insertInto id value rest

theorem mem_ids_insertInto {id other : Int} {value : α} {entries : List (Int × α)} :
    other ∈ (insertInto id value entries).map Prod.fst ↔ other = id ∨ other ∈ entries.map Prod.fst := by
  induction entries with
  | nil => simp [insertInto]
  | cons entry rest inductionHypothesis =>
    obtain ⟨first, old⟩ := entry
    rw [insertInto]
    split
    · simp
    · split
      · rename_i same
        simp [same]
      · rw [List.map_cons, List.mem_cons, inductionHypothesis, List.map_cons, List.mem_cons]
        exact or_left_comm

theorem pairwise_insertInto {id : Int} {value : α} {entries : List (Int × α)}
    (ascending : (entries.map Prod.fst).Pairwise (· < ·)) :
    ((insertInto id value entries).map Prod.fst).Pairwise (· < ·) := by
  induction entries with
  | nil => simp [insertInto]
  | cons entry rest inductionHypothesis =>
    obtain ⟨first, old⟩ := entry
    rw [List.map_cons, List.pairwise_cons] at ascending
    rw [insertInto]
    split
    · rename_i below
      refine List.pairwise_cons.2 ⟨?_, List.pairwise_cons.2 ascending⟩
      intro other member
      rcases List.mem_cons.1 member with same | inRest
      · exact same ▸ below
      · exact Int.lt_trans below (ascending.1 other inRest)
    · split
      · rename_i same
        exact List.pairwise_cons.2 ⟨same ▸ ascending.1, ascending.2⟩
      · refine List.pairwise_cons.2 ⟨?_, inductionHypothesis ascending.2⟩
        intro other member
        rcases mem_ids_insertInto.1 member with same | inRest
        · subst same
          show first < other
          omega
        · exact ascending.1 other inRest

/-- The table with a value filed under an identity, in place of the one that was there. -/
def insert (table : Table α) (id : Int) (value : α) : Table α :=
  ⟨insertInto id value table.entries, pairwise_insertInto table.ascending⟩

/-- The table of a list of entries; of several under one identity the last is kept. -/
def ofList (entries : List (Int × α)) : Table α :=
  entries.foldl (fun table entry => table.insert entry.1 entry.2) empty

/-- The table without what is filed under an identity. -/
def erase (table : Table α) (id : Int) : Table α :=
  ⟨table.entries.filter fun entry => entry.1 != id,
    table.ascending.sublist (List.filter_sublist.map Prod.fst)⟩

private theorem findIn_insertInto (id other : Int) (value : α) (entries : List (Int × α)) :
    findIn other (insertInto id value entries) = if other = id then some value else findIn other entries := by
  induction entries with
  | nil => simp [insertInto, findIn, eq_comm]
  | cons entry rest inductionHypothesis =>
    obtain ⟨first, old⟩ := entry
    rw [insertInto]
    split
    · simp [findIn, eq_comm]
    · split
      · rename_i same
        subst same
        by_cases found : first = other
        · simp [findIn, found]
        · simp [findIn, found, Ne.symm found]
      · rename_i different
        by_cases found : first = other
        · subst found
          simp [findIn, different]
        · simp [findIn, found, inductionHypothesis]

/-- A filed value is found under its identity; under all others the same is found as before. -/
theorem find?_insert (table : Table α) (id other : Int) (value : α) :
    (table.insert id value).find? other = if other = id then some value else table.find? other :=
  findIn_insertInto id other value table.entries

/-- Nothing is found under an erased identity; under all others the same is found as before. -/
theorem find?_erase (table : Table α) (id other : Int) :
    (table.erase id).find? other = if other = id then none else table.find? other := by
  show findIn other (table.entries.filter fun entry => entry.1 != id) =
    if other = id then none else findIn other table.entries
  induction table.entries with
  | nil => simp [findIn]
  | cons entry rest inductionHypothesis =>
    obtain ⟨first, old⟩ := entry
    by_cases erased : first = id
    · subst erased
      by_cases same : other = first
      · subst same
        simpa using inductionHypothesis
      · simp [findIn, inductionHypothesis, same, Ne.symm same]
    · by_cases found : first = other
      · subst found
        simp [findIn, erased]
      · simp [findIn, erased, found, inductionHypothesis]

end Table

end Formulary
