import Formulary.Links.Path

/-!
# New links for one calculation

What becomes of paths when the links that leave one identity are replaced by others. The main
statement, `Relinked.acyclic`, says that links without circles stay so if nothing that the identity
is linked to depends on it.
-/

namespace Formulary.Links

/-- The links after those that leave `origin` have been replaced by one to each destination that is
wanted. -/
def Relinked (origin : Int) (wanted : Int → Prop) (before after : List Link) : Prop :=
  ∀ source destination : Int, ⟨source, destination⟩ ∈ after ↔
    (source = origin ∧ wanted destination) ∨ (source ≠ origin ∧ ⟨source, destination⟩ ∈ before)

variable {origin : Int} {wanted : Int → Prop} {before after links : List Link}

theorem DependsOn.of_mem {id other : Int} (linked : ⟨id, other⟩ ∈ links) :
    DependsOn links id other :=
  ⟨1, .single linked⟩

theorem Acyclic.ne_of_dependsOn (acyclic : Acyclic links) {id other : Int}
    (depends : DependsOn links id other) : id ≠ other := by
  rintro rfl
  exact acyclic id depends

/-- Dependence begins with one link, and goes on from there unless that link is all of it. -/
theorem dependsOn_iff {id other : Int} :
    DependsOn links id other ↔
      ∃ next, ⟨id, next⟩ ∈ links ∧ (next = other ∨ DependsOn links next other) := by
  constructor
  · rintro ⟨_, path⟩
    cases path with
    | single linked => exact ⟨other, linked, .inl rfl⟩
    | step linked path => exact ⟨_, linked, .inr ⟨_, path⟩⟩
  · rintro ⟨next, linked, rfl | depends⟩
    · exact .of_mem linked
    · exact (DependsOn.of_mem linked).trans depends

/-- Dependence ends with one link. -/
theorem DependsOn.exists_last {id other : Int} (depends : DependsOn links id other) :
    ∃ last, ⟨last, other⟩ ∈ links := by
  rcases depends with ⟨length, path⟩
  induction path with
  | single linked => exact ⟨_, linked⟩
  | step _ _ inductionHypothesis => exact inductionHypothesis

/-- A dependence among the new links is an old one, or it leads through the identity whose links
were replaced. -/
theorem Relinked.dependsOn_cases (relinked : Relinked origin wanted before after) {id other : Int}
    (depends : DependsOn after id other) :
    (id ≠ origin ∧ DependsOn before id other) ∨
      ((id = origin ∨ DependsOn after id origin) ∧ DependsOn after origin other) := by
  rcases depends with ⟨length, path⟩
  induction path with
  | single linked =>
    rcases (relinked _ _).mp linked with ⟨rfl, -⟩ | ⟨different, old⟩
    · exact .inr ⟨.inl rfl, .of_mem linked⟩
    · exact .inl ⟨different, .of_mem old⟩
  | step linked path inductionHypothesis =>
    rcases (relinked _ _).mp linked with ⟨rfl, -⟩ | ⟨different, old⟩
    · exact .inr ⟨.inl rfl, (DependsOn.of_mem linked).trans ⟨_, path⟩⟩
    · rcases inductionHypothesis with ⟨-, later⟩ | ⟨through, later⟩
      · exact .inl ⟨different, (DependsOn.of_mem old).trans later⟩
      · refine .inr ⟨.inr ?_, later⟩
        rcases through with rfl | through
        · exact .of_mem linked
        · exact (DependsOn.of_mem linked).trans through

/-- What depends on the identity whose links were replaced is what depended on it before. -/
theorem Relinked.dependsOn_origin_iff (relinked : Relinked origin wanted before after) {id : Int}
    (different : id ≠ origin) :
    DependsOn after id origin ↔ DependsOn before id origin := by
  constructor
  · rintro ⟨length, path⟩
    -- The path is followed until it reaches the identity for the first time.
    generalize goal : origin = destination at path
    induction path with
    | single linked =>
      subst goal
      rcases (relinked _ _).mp linked with ⟨same, -⟩ | ⟨-, old⟩
      · exact absurd same different
      · exact .of_mem old
    | @step id middle _ _ linked path inductionHypothesis =>
      rcases (relinked _ _).mp linked with ⟨same, -⟩ | ⟨-, old⟩
      · exact absurd same different
      · by_cases arrived : middle = origin
        · subst goal arrived
          exact .of_mem old
        · exact (DependsOn.of_mem old).trans (inductionHypothesis arrived goal)
  · rintro ⟨length, path⟩
    generalize goal : origin = destination at path
    induction path with
    | @single id _ linked => exact .of_mem ((relinked _ _).mpr (.inr ⟨different, linked⟩))
    | @step id middle _ _ linked path inductionHypothesis =>
      have kept := (relinked id middle).mpr (.inr ⟨different, linked⟩)
      by_cases arrived : middle = origin
      · subst goal arrived
        exact .of_mem kept
      · exact (DependsOn.of_mem kept).trans (inductionHypothesis arrived goal)

/-- Without circles this is so of the identity itself as well, on which it does not depend. -/
theorem Relinked.dependsOn_origin_iff_of_acyclic (relinked : Relinked origin wanted before after)
    (acyclicBefore : Acyclic before) (acyclicAfter : Acyclic after) (id : Int) :
    DependsOn after id origin ↔ DependsOn before id origin := by
  by_cases same : id = origin
  · subst same
    exact iff_of_false (acyclicAfter id) (acyclicBefore id)
  · exact relinked.dependsOn_origin_iff same

/-- The new links lead from the identity back to it exactly if they lead to the identity itself or to
something that depended on it before. -/
theorem Relinked.dependsOn_self_iff (relinked : Relinked origin wanted before after) :
    DependsOn after origin origin ↔ ∃ id, wanted id ∧ (id = origin ∨ DependsOn before id origin) := by
  rw [dependsOn_iff]
  constructor
  · rintro ⟨next, linked, back⟩
    rcases (relinked _ _).mp linked with ⟨-, isWanted⟩ | ⟨different, -⟩
    · refine ⟨next, isWanted, ?_⟩
      by_cases same : next = origin
      · exact .inl same
      · exact .inr ((relinked.dependsOn_origin_iff same).mp (back.resolve_left same))
    · exact absurd rfl different
  · rintro ⟨id, isWanted, back⟩
    refine ⟨id, (relinked _ _).mpr (.inl ⟨rfl, isWanted⟩), ?_⟩
    by_cases same : id = origin
    · exact .inl same
    · exact .inr ((relinked.dependsOn_origin_iff same).mpr (back.resolve_left same))

/-- Links without circles have none after those that leave an identity were replaced, if the
identity is linked neither to itself nor to anything that depends on it. -/
theorem Relinked.acyclic (relinked : Relinked origin wanted before after) (acyclic : Acyclic before)
    (sound : ∀ id, wanted id → id ≠ origin ∧ ¬DependsOn before id origin) : Acyclic after := by
  have fromOrigin : ¬DependsOn after origin origin := by
    rw [relinked.dependsOn_self_iff]
    rintro ⟨id, isWanted, back⟩
    rcases sound id isWanted with ⟨different, independent⟩
    exact back.elim different independent
  intro id circle
  rcases relinked.dependsOn_cases circle with ⟨-, old⟩ | ⟨through, back⟩
  · exact acyclic id old
  · rcases through with rfl | through
    · exact fromOrigin back
    · exact fromOrigin (back.trans through)

end Formulary.Links
