import Mathlib.Data.List.TakeWhile
import Formulary.Proofs.Links.Marks

/-!
# Marking while walking

A cascade marks an entry as soon as its walk visits it. Marks change no links, so this does the same
as listing first everything that depends on the origin, and marking then what is listed
(`cascade_eq_markListed`). A cascade that ends well has marked exactly what depends on its origin; one
that does not has changed nothing unless entries could not be looked up or replaced.
-/

namespace Formulary.Links

variable {memory : Memory} {failing : List StoreMethod} {final : Faulty Memory}

/-! ## Marking what is listed -/

/-- Marks listed identities stale one after the other, as far as they have an entry. If `origin` is
listed, what comes before it is marked, and then the circle is reported. -/
def markListed {σ : Type} [Store σ] (origin : Int) : List Int → Action σ LinkError (List Int)
  | [] => return []
  | node :: rest =>
    if node = origin then .fail (.cycle origin)
    else do
      let present ← Action.mapError .store (markStale node)
      let others ← markListed origin rest
      return if present then node :: others else others

/-- Marking listed identities reports a circle exactly if `origin` is listed. What comes before it is
marked, unless entries cannot be looked up or replaced. -/
theorem markListed_cases {origin : Int} {order : List Int} {outcome : Except LinkError (List Int)}
    (run : markListed origin order (Faulty.mk memory failing) = (outcome, final)) :
    (∃ after, final = ⟨after, failing⟩ ∧
        Invalidated (· ∈ order.takeWhile (· != origin)) memory after ∧
        outcome = if origin ∈ order then .error (.cycle origin)
          else .ok (present memory (order.takeWhile (· != origin)))) ∨
      ∃ error, outcome = .error error ∧ (.fetch ∈ failing ∨ .replace ∈ failing) := by
  induction order generalizing memory outcome final with
  | nil =>
    cases run
    exact .inl ⟨memory, rfl, ⟨rfl, rfl, nofun, fun _ _ => rfl⟩, rfl⟩
  | cons node rest inductionHypothesis =>
    rw [markListed] at run
    by_cases isOrigin : node = origin
    · rw [if_pos isOrigin] at run
      cases run
      rw [List.takeWhile_cons_of_neg (by simpa using isOrigin),
        if_pos (List.mem_cons.mpr (.inl isOrigin.symm))]
      exact .inl ⟨memory, rfl, ⟨rfl, rfl, nofun, fun _ _ => rfl⟩, rfl⟩
    · rw [if_neg isOrigin] at run
      have listed_iff : origin ∈ node :: rest ↔ origin ∈ rest := by
        rw [List.mem_cons, or_iff_right fun same => isOrigin same.symm]
      rw [List.takeWhile_cons_of_pos (by simpa using isOrigin)]
      rcases Action.bind_cases run with ⟨found, state, marked, restRun⟩ | ⟨error, marked, rfl⟩
      · obtain ⟨middle, found_eq, rfl, nodeMarked⟩ | ⟨_, impossible, -⟩ :=
          markStale_cases (Action.mapError_eq_ok_iff.mp marked)
        · cases found_eq
          match markedRest : markListed origin rest (Faulty.mk middle failing) with
          | (restOutcome, restFinal) =>
            rcases inductionHypothesis markedRest with
              ⟨after, rfl, invalidated, rfl⟩ | ⟨error, rfl, fails⟩
            · by_cases listed : origin ∈ rest
              · rw [if_pos listed] at markedRest
                cases (Action.bind_of_error markedRest).symm.trans restRun
                rw [if_pos (listed_iff.mpr listed)]
                exact .inl ⟨after, rfl, nodeMarked.cons invalidated, rfl⟩
              · rw [if_neg listed, nodeMarked.present_eq] at markedRest
                cases (Action.bind_of_ok markedRest).symm.trans restRun
                rw [if_neg (mt listed_iff.mp listed), present, present, List.filter_cons]
                exact .inl ⟨after, rfl, nodeMarked.cons invalidated, rfl⟩
            · cases (Action.bind_of_error markedRest).symm.trans restRun
              exact .inr ⟨error, rfl, fails⟩
        · cases impossible
      · rcases Action.mapError_eq_error_iff.mp marked with ⟨cause, failed, rfl⟩
        rcases markStale_cases failed with ⟨_, impossible, -⟩ | ⟨_, -, fails⟩
        · cases impossible
        · exact .inr ⟨_, rfl, fails⟩

/-- What comes before an identity that is not there is everything. -/
theorem takeWhile_of_not_mem {ids : List Int} {origin : Int} (absent : origin ∉ ids) :
    ids.takeWhile (· != origin) = ids :=
  List.takeWhile_eq_self_iff.mpr fun id member => by
    simpa using fun same : id = origin => absent (same ▸ member)

/-! ## Cascades -/

theorem Invalidated.dependentsOf_eq {which : Int → Prop} {before after : Memory}
    (invalidated : Invalidated which before after) : after.dependentsOf = before.dependentsOf := by
  funext id
  rw [Memory.dependentsOf, Memory.dependentsOf, invalidated.linkList]

/-- Unless looks at the links fail, they show the direct dependents. -/
theorem look_dependents (looks : .dependents ∉ failing) (id : Int) :
    Action.mapError LinkError.store
        (.inspect fun state : Faulty Memory => Store.dependents state id)
        (Faulty.mk memory failing) = (.ok (memory.dependentsOf id), ⟨memory, failing⟩) :=
  Action.mapError_eq_ok_iff.mpr (Prod.ext ((memory.shows_links looks).dependents id) rfl)

/-- Marking while walking does what marking does once the walk is over. Marks change no links, so the
walk does not depend on them. -/
theorem markReached_eq_markListed (looks : .dependents ∉ failing)
    {next : Int → Except StoreError (List Int)} {origin : Int} {unvisited queue order : List Int}
    (total : ∀ id, next id = .ok (memory.dependentsOf id))
    (walked : walk next unvisited queue = .ok order)
    (returns : ∀ id, origin ∈ memory.dependentsOf id → origin ∈ unvisited)
    (queued : origin ∈ queue → origin ∈ unvisited) :
    markReached origin unvisited queue (Faulty.mk memory failing) =
      markListed origin order (Faulty.mk memory failing) := by
  induction unvisited, queue using visit_induction generalizing memory order with
  | empty unvisited =>
    rw [walk_nil] at walked
    cases walked
    rw [markReached_nil, markListed]
  | visit unvisited node rest waits inductionHypothesis =>
    rcases exists_walk_of_cons total waits walked with ⟨later, rfl, walkedRest⟩
    by_cases isOrigin : node = origin
    · rw [isOrigin, markReached_cons_self, markListed, if_pos rfl]
    · rw [markReached_cons_of_mem isOrigin waits, markListed, if_neg isOrigin]
      match marked : Action.mapError LinkError.store (markStale node) (Faulty.mk memory failing) with
      | (.error error, middle) => rw [Action.bind_of_error marked, Action.bind_of_error marked]
      | (.ok present, middle) =>
        rw [Action.bind_of_ok marked, Action.bind_of_ok marked]
        obtain ⟨after, -, rfl, invalidated⟩ | ⟨_, impossible, -⟩ :=
          markStale_cases (Action.mapError_eq_ok_iff.mp marked)
        · have stays : origin ∈ unvisited → origin ∈ without node unvisited := fun member =>
            mem_without.mpr ⟨member, fun same => isOrigin same.symm⟩
          rw [← invalidated.dependentsOf_eq] at total walkedRest returns
          have again := inductionHypothesis (after.dependentsOf node) total walkedRest
            (fun id member => stays (returns id member)) fun member => by
              rcases List.mem_append.mp member with inRest | follows
              · exact stays (queued (List.mem_cons_of_mem node inRest))
              · exact stays (returns node follows)
          rw [Action.bind_of_ok (look_dependents looks node)]
          exact Action.bind_congr again
        · cases impossible
  | pass unvisited node rest visited inductionHypothesis =>
    have isOther : node ≠ origin := by
      rintro rfl
      exact visited (queued List.mem_cons_self)
    rw [markReached_cons_of_not_mem isOther visited]
    rw [walk_cons_of_not_mem visited] at walked
    exact inductionHypothesis total walked returns fun member =>
      queued (List.mem_cons_of_mem node member)

/-- Where everything that depends on the origin can be listed, a cascade marks what is listed. -/
theorem cascade_of_listed {origin : Int} {order : List Int}
    (listed : downstreamOrder (Faulty.mk memory failing) origin = .ok order) :
    cascade origin (Faulty.mk memory failing) =
      markListed origin order (Faulty.mk memory failing) := by
  have looks : .dependents ∉ failing := fun fails => by
    cases listed.symm.trans (downstreamOrder_of_fails fails origin)
  have shows := memory.shows_links looks
  have seen : Action.inspect (fun state : Faulty Memory =>
      (.ok ((Store.links state).map (·.origin)) : Except LinkError _))
      (Faulty.mk memory failing) =
        (.ok ((Store.links (Faulty.mk memory failing)).map (·.origin)), ⟨memory, failing⟩) := rfl
  have returns : ∀ id, origin ∈ memory.dependentsOf id →
      origin ∈ (Store.links (Faulty.mk memory failing)).map (·.origin) :=
    fun id follows => shows.mem_origins (shows.mem_following.mp follows)
  rw [downstreamOrder, shows.dependents origin] at listed
  rw [cascade, Action.bind_of_ok (look_dependents looks origin), Action.bind_of_ok seen]
  exact markReached_eq_markListed looks shows.dependents listed returns (returns origin)

/-- Where looks at the links fail, a cascade does. -/
theorem cascade_of_fails (fails : .dependents ∈ failing) (origin : Int) :
    cascade origin (Faulty.mk memory failing) =
      (.error (.store (.missingRow origin)), ⟨memory, failing⟩) := by
  have first : Action.mapError LinkError.store
      (.inspect fun state : Faulty Memory => Store.dependents state origin)
      (Faulty.mk memory failing) = (.error (.store (.missingRow origin)), ⟨memory, failing⟩) :=
    Action.mapError_eq_error_iff.mpr ⟨_, Prod.ext (dependents_of_fails fails origin) rfl, rfl⟩
  rw [cascade, Action.bind_of_error first]

/-- A cascade does in one pass what listing everything that depends on its origin, and then marking
what is listed, does in two. -/
theorem cascade_eq_markListed (memory : Memory) (failing : List StoreMethod) (origin : Int) :
    cascade origin (Faulty.mk memory failing) = (do
      let order ← Action.mapError .store (.inspect fun state => downstreamOrder state origin)
      markListed origin order : Action (Faulty Memory) LinkError (List Int))
        (Faulty.mk memory failing) := by
  rcases downstreamOrder_cases memory failing origin with ⟨order, listed, -⟩ | fails
  · rw [cascade_of_listed listed]
    refine (Action.bind_of_ok ?_).symm
    exact Action.mapError_eq_ok_iff.mpr (Prod.ext listed rfl)
  · rw [cascade_of_fails fails]
    refine (Action.bind_of_error ?_).symm
    exact Action.mapError_eq_error_iff.mpr
      ⟨_, Prod.ext (downstreamOrder_of_fails fails origin) rfl, rfl⟩

/-- A cascade that ends well has marked exactly what depends on its origin. One that does not could
not look at the links and has changed nothing, or could not look up or replace entries, or its origin
depends on itself. -/
theorem cascade_cases {origin : Int} {outcome : Except LinkError (List Int)}
    (run : cascade origin (Faulty.mk memory failing) = (outcome, final)) :
    (∃ reached after, outcome = .ok reached ∧ final = ⟨after, failing⟩ ∧
        Invalidated (DependsOn memory.linkList · origin) memory after) ∨
      ∃ error, outcome = .error error ∧
        ((.dependents ∈ failing ∧ final = ⟨memory, failing⟩) ∨ .fetch ∈ failing ∨
          .replace ∈ failing ∨ DependsOn memory.linkList origin origin) := by
  rcases downstreamOrder_cases memory failing origin with
    ⟨order, listed, -, inOrder⟩ | fails
  · rw [cascade_of_listed listed] at run
    rcases markListed_cases run with ⟨after, rfl, invalidated, rfl⟩ | ⟨error, rfl, fails⟩
    · split
      · rename_i circle
        exact .inr ⟨_, rfl, .inr (.inr (.inr ((inOrder origin).mp circle)))⟩
      · rename_i absent
        rw [takeWhile_of_not_mem absent] at invalidated
        exact .inl ⟨_, after, rfl, rfl, invalidated.congr inOrder⟩
    · exact .inr ⟨error, rfl, .inr (fails.imp id .inl)⟩
  · rw [cascade_of_fails fails] at run
    cases run
    exact .inr ⟨_, rfl, .inl ⟨fails, rfl⟩⟩

end Formulary.Links
