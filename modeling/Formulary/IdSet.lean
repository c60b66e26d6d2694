/-!
# Identities and sets of them

A calculation is known by a whole number. A set of identities is kept as a list in ascending order,
so that equal sets are equal lists and every walk through a set is ascending.
-/

namespace Formulary

/-- The largest identity that can be written. -/
def largestId : Int :=
  9223372036854775807

/-- The smallest identity that can be written. -/
def smallestId : Int :=
  -9223372036854775808

/-- A finite set of identities, listed in ascending order. -/
structure IdSet where
  toList : List Int
  ascending : toList.Pairwise (· < ·)
  deriving DecidableEq

namespace IdSet

instance : Membership Int IdSet where
  mem ids id := id ∈ ids.toList

instance (id : Int) (ids : IdSet) : Decidable (id ∈ ids) :=
  inferInstanceAs (Decidable (id ∈ ids.toList))

theorem mem_def {id : Int} {ids : IdSet} : id ∈ ids ↔ id ∈ ids.toList :=
  Iff.rfl

/-- The set without members. -/
def empty : IdSet :=
  ⟨[], .nil⟩

/-- An ascending list with one more identity at its place, if it is not there already. -/
def insertInto (id : Int) : List Int → List Int
  | [] => [id]
  | first :: rest =>
    if id < first then id :: first :: rest
    else if id = first then first :: rest
    else first :: insertInto id rest

theorem mem_insertInto {id other : Int} {ids : List Int} :
    other ∈ insertInto id ids ↔ other = id ∨ other ∈ ids := by
  induction ids with
  | nil => simp [insertInto]
  | cons first rest inductionHypothesis =>
    rw [insertInto]
    split
    · simp
    · split
      · rename_i same
        simp [same]
      · rw [List.mem_cons, inductionHypothesis, List.mem_cons]
        exact or_left_comm

theorem pairwise_insertInto {id : Int} {ids : List Int} (ascending : ids.Pairwise (· < ·)) :
    (insertInto id ids).Pairwise (· < ·) := by
  induction ids with
  | nil => simp [insertInto]
  | cons first rest inductionHypothesis =>
    rw [List.pairwise_cons] at ascending
    rw [insertInto]
    split
    · rename_i below
      refine List.pairwise_cons.2 ⟨?_, List.pairwise_cons.2 ascending⟩
      intro other member
      rcases List.mem_cons.1 member with rfl | inRest
      · exact below
      · exact Int.lt_trans below (ascending.1 other inRest)
    · split
      · exact List.pairwise_cons.2 ascending
      · rename_i notBelow notSame
        refine List.pairwise_cons.2 ⟨?_, inductionHypothesis ascending.2⟩
        intro other member
        rcases mem_insertInto.1 member with rfl | inRest
        · omega
        · exact ascending.1 other inRest

/-- The set with one more member. -/
def insert (ids : IdSet) (id : Int) : IdSet :=
  ⟨insertInto id ids.toList, pairwise_insertInto ids.ascending⟩

/-- The members of a list. -/
def ofList (ids : List Int) : IdSet :=
  ids.foldl insert empty

@[simp]
theorem mem_insert {id other : Int} {ids : IdSet} : other ∈ ids.insert id ↔ other = id ∨ other ∈ ids :=
  mem_insertInto

private theorem mem_foldl_insert {other : Int} (ids : List Int) (start : IdSet) :
    other ∈ ids.foldl insert start ↔ other ∈ ids ∨ other ∈ start := by
  induction ids generalizing start with
  | nil => simp
  | cons first rest inductionHypothesis =>
    rw [List.foldl_cons, inductionHypothesis, mem_insert, List.mem_cons]
    constructor
    · rintro (inRest | same | inStart)
      · exact .inl (.inr inRest)
      · exact .inl (.inl same)
      · exact .inr inStart
    · rintro ((same | inRest) | inStart)
      · exact .inr (.inl same)
      · exact .inl inRest
      · exact .inr (.inr inStart)

/-- A list and the set of its members have the same members. -/
@[simp]
theorem mem_ofList {other : Int} {ids : List Int} : other ∈ ofList ids ↔ other ∈ ids := by
  rw [ofList, mem_foldl_insert]
  simp [mem_def, empty]

end IdSet

end Formulary
