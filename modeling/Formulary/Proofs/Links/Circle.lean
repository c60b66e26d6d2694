import Formulary.Proofs.Links.Marks
import Formulary.Proofs.Store.Faultless

/-!
# The check of new links is exact

The check looks at the links as they are before those that leave one identity are replaced. It still
tells exactly whether this identity would depend on itself afterwards.
-/

namespace Formulary.Links

/-- Recording in a store that does not fail replaces the links of one identity and changes nothing
else. -/
theorem exists_recorded (memory : Memory) (origin : Int) (dependencies : IdSet) :
    ∃ links, record origin dependencies memory = (.ok (), { memory with linkList := links }) ∧
      Relinked origin (· ∈ dependencies) memory.linkList links := by
  rcases Action.exists_ok_of_ne_error fun _ _ => record_ne_error with ⟨⟨⟩, final, run⟩
  rcases record_eq_ok run with ⟨links, rfl, relinked⟩
  rw [Engine.mirrors_of_agree (record_simulates (faultless Memory) origin dependencies
    (show (faultless Memory).related (Faulty.mk memory []) memory from rfl))] at run
  exact ⟨links, Engine.mirrored_iff.mp run, relinked⟩

/-- The check of new links passes exactly if their origin does not depend on itself once they have
replaced those that leave it. -/
theorem Shows.ensureAcyclic_eq_ok_iff {σ : Type} [Store σ] {state : σ} {following : Int → List Int}
    {before after : List Link} {origin : Int} {dependencies : IdSet}
    (shows : Shows state following before)
    (relinked : Relinked origin (· ∈ dependencies) before after) :
    ensureAcyclic origin dependencies state = .ok () ↔ ¬DependsOn after origin origin := by
  rw [relinked.dependsOn_self_iff]
  rcases shows.ensureAcyclic_cases origin dependencies with
    ⟨passed, independent⟩ | ⟨culprit, member, back, refused⟩
  · refine iff_of_true passed ?_
    rintro ⟨id, member, back⟩
    exact back.elim (independent id member).1 (independent id member).2
  · refine iff_of_false ?_ (not_not_intro ⟨culprit, member, back⟩)
    rw [refused]
    nofun

/-- What depends on an identity is found. The check of new links for it passes exactly if the
identity does not depend on itself once they are recorded, so links without circles stay so.
Otherwise the check names one of the new links, which leads to the identity itself or to something
that depends on it already. -/
theorem ensureAcyclic_exact (memory : Memory) (origin : Int) (dependencies : IdSet) :
    (∃ dependents, downstream memory origin = .ok dependents ∧
        ∀ id, id ∈ dependents ↔ DependsOn memory.linkList id origin) ∧
      ∃ links, record origin dependencies memory = (.ok (), { memory with linkList := links }) ∧
        Relinked origin (· ∈ dependencies) memory.linkList links ∧
        (ensureAcyclic origin dependencies memory = .ok () ↔ ¬DependsOn links origin origin) ∧
        (Acyclic memory.linkList → ensureAcyclic origin dependencies memory = .ok () →
          Acyclic links) ∧
        ∀ error, ensureAcyclic origin dependencies memory = .error error →
          ∃ culprit ∈ dependencies, error = .cycle culprit ∧
            (culprit = origin ∨ DependsOn memory.linkList culprit origin) := by
  have shows := memory.shows_own_links
  rcases exists_recorded memory origin dependencies with ⟨links, recorded, relinked⟩
  refine ⟨shows.exists_downstream origin, links, recorded, relinked,
    shows.ensureAcyclic_eq_ok_iff relinked, ?acyclic, ?culprit⟩
  case acyclic =>
    intro acyclic passed
    rcases shows.ensureAcyclic_cases origin dependencies with
      ⟨-, independent⟩ | ⟨_, -, -, refused⟩
    · exact relinked.acyclic acyclic independent
    · cases passed.symm.trans refused
  case culprit =>
    intro error failed
    rcases shows.ensureAcyclic_cases origin dependencies with
      ⟨passed, -⟩ | ⟨culprit, member, back, refused⟩
    · cases passed.symm.trans failed
    · cases refused.symm.trans failed
      exact ⟨culprit, member, rfl, back⟩

end Formulary.Links
