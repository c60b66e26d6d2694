import Mathlib.Data.Nat.Find
import Formulary.Proofs.Links.Walk

/-!
# Walks by distance

A breadth-first walk comes to what depends on an identity nearest first. While it goes, its queue is
in two layers: what is left of the identities at one distance, and behind them those that are one
link further away. The main statement, `Shows.nearestFirst`, says so of `downstreamOrder`.
-/

namespace Formulary.Links

variable {links : List Link} {origin id node : Int} {length distance : Nat}

/-! ## Distances -/

/-- There is no more than one distance. -/
theorem IsDistance.unique {first second : Nat} (isFirst : IsDistance links first id origin)
    (isSecond : IsDistance links second id origin) : first = second :=
  Nat.le_antisymm (isFirst.2 second isSecond.1) (isSecond.2 first isFirst.1)

/-- Where there is a path, there is a distance, and the path is not shorter. -/
theorem Path.exists_isDistance (path : Path links length id origin) :
    ∃ shortest ≤ length, IsDistance links shortest id origin := by
  classical
  have depends : ∃ length, Path links length id origin := ⟨length, path⟩
  exact ⟨Nat.find depends, Nat.find_min' depends path, Nat.find_spec depends,
    fun _ shorter => Nat.find_min' depends shorter⟩

theorem Path.pos (path : Path links length id origin) : 0 < length := by
  cases path with
  | single => exact Nat.one_pos
  | step => exact Nat.succ_pos _

/-- A shortest path has one link, or it goes on from its first link by a shortest path. -/
theorem IsDistance.first_link (isDistance : IsDistance links (length + 1) id origin) :
    (length = 0 ∧ ⟨id, origin⟩ ∈ links) ∨
      ∃ next, ⟨id, next⟩ ∈ links ∧ IsDistance links length next origin := by
  obtain ⟨path, shortest⟩ := isDistance
  cases path with
  | single linked => exact .inl ⟨rfl, linked⟩
  | step linked path =>
    refine .inr ⟨_, linked, path, fun shorter other => ?_⟩
    exact Nat.le_of_succ_le_succ (shortest (shorter + 1) (.step linked other))

/-- What has a distance is linked to something. -/
theorem IsDistance.exists_link (isDistance : IsDistance links length id origin) :
    ∃ next, ⟨id, next⟩ ∈ links := by
  cases isDistance.1 with
  | single linked => exact ⟨_, linked⟩
  | step linked => exact ⟨_, linked⟩

/-! ## Layers of a queue -/

/-- Identities in an order in which none is nearer to the origin than one before it. -/
def NearestFirst (links : List Link) (origin : Int) (ids : List Int) : Prop :=
  ids.Pairwise fun nearer farther => ∃ first second,
    IsDistance links first nearer origin ∧ IsDistance links second farther origin ∧ first ≤ second

/-- The queue of a walk that has come to identities at some distance from its origin. What is left of
them stands in `near`, and what depends on those that have been visited stands behind, in `far`. -/
structure Layered (links : List Link) (origin : Int) (distance : Nat)
    (unvisited near far : List Int) : Prop where
  visited : ∀ {id length}, IsDistance links length id origin → id ∉ unvisited → length ≤ distance
  waiting : ∀ {id length}, IsDistance links length id origin → id ∈ unvisited →
    length ≤ distance → id ∈ near
  isNear : ∀ id ∈ near, id ∈ unvisited → IsDistance links distance id origin
  isFar : ∀ id ∈ far, ∃ length ≤ distance + 1, IsDistance links length id origin
  ahead : ∀ {id}, IsDistance links (distance + 1) id origin → id ∈ unvisited →
    id ∈ far ∨ ∃ next ∈ unvisited, ⟨id, next⟩ ∈ links ∧ IsDistance links distance next origin

variable {following : Int → List Int} {unvisited near far rest : List Int}

/-- The identities that depend directly on the origin are the first layer. -/
theorem layered_start (mem_following : ∀ {id dependent : Int},
      dependent ∈ following id ↔ ⟨dependent, id⟩ ∈ links)
    (origins : ∀ {id next : Int}, ⟨id, next⟩ ∈ links → id ∈ unvisited) :
    Layered links origin 0 unvisited [] (following origin) where
  visited isDistance notWaiting := by
    rcases isDistance.exists_link with ⟨next, linked⟩
    exact absurd (origins linked) notWaiting
  waiting isDistance _ short := absurd isDistance.1.pos (Nat.not_lt.mpr short)
  isNear := by simp
  isFar id follows := by
    have path : Path links 1 id origin := .single (mem_following.mp follows)
    exact path.exists_isDistance
  ahead isDistance _ := by
    rcases isDistance.first_link with ⟨-, linked⟩ | ⟨next, -, impossible⟩
    · exact .inl (mem_following.mpr linked)
    · exact absurd impossible.1.pos (Nat.lt_irrefl 0)

/-- When nothing is left of one layer, the walk has come to the next. -/
theorem Layered.advance (layered : Layered links origin distance unvisited [] far) :
    Layered links origin (distance + 1) unvisited far [] := by
  have beyond : ∀ {id length}, IsDistance links length id origin → id ∈ unvisited →
      distance < length := by
    intro id length isDistance waits
    by_contra short
    cases layered.waiting isDistance waits (Nat.le_of_not_lt short)
  constructor
  case visited =>
    intro id length isDistance visited
    exact Nat.le_succ_of_le (layered.visited isDistance visited)
  case waiting =>
    intro id length isDistance waits atMost
    obtain rfl : length = distance + 1 := Nat.le_antisymm atMost (beyond isDistance waits)
    rcases layered.ahead isDistance waits with inFar | ⟨next, nextWaits, -, isNext⟩
    · exact inFar
    · exact absurd (beyond isNext nextWaits) (Nat.lt_irrefl distance)
  case isNear =>
    intro id inFar waits
    rcases layered.isFar id inFar with ⟨length, atMost, isDistance⟩
    rwa [Nat.le_antisymm atMost (beyond isDistance waits)] at isDistance
  case isFar => simp
  case ahead =>
    intro id isDistance _
    rcases isDistance.first_link with ⟨impossible, -⟩ | ⟨next, linked, isNext⟩
    · cases impossible
    · refine .inr ⟨next, ?_, linked, isNext⟩
      -- What is two links beyond the visited layer goes on to something that is not visited.
      by_contra visited
      exact absurd (layered.visited isNext visited) (Nat.not_succ_le_self distance)

/-- The identity at the front of the queue is the first of the first layer, or of the second if
nothing is left of the first. -/
theorem Layered.exists_front (layered : Layered links origin distance unvisited near far)
    (queue_eq : near ++ far = node :: rest) :
    ∃ reached left behind, distance ≤ reached ∧ rest = left ++ behind ∧
      Layered links origin reached unvisited (node :: left) behind := by
  cases near with
  | nil =>
    cases queue_eq
    exact ⟨distance + 1, rest, [], Nat.le_succ distance, (List.append_nil rest).symm,
      layered.advance⟩
  | cons first left =>
    cases queue_eq
    exact ⟨distance, left, far, Nat.le_refl distance, rfl, layered⟩

/-- Visiting an identity leaves two layers, and puts what depends on it into the second. -/
theorem Layered.visit (mem_following : ∀ {id dependent : Int},
      dependent ∈ following id ↔ ⟨dependent, id⟩ ∈ links)
    (layered : Layered links origin distance unvisited (node :: near) far)
    (isNode : IsDistance links distance node origin) :
    Layered links origin distance (without node unvisited) near (far ++ following node) := by
  constructor
  case visited =>
    intro id length isDistance visited
    by_cases same : id = node
    · subst same
      exact Nat.le_of_eq (isDistance.unique isNode)
    · exact layered.visited isDistance fun waits => visited (mem_without.mpr ⟨waits, same⟩)
  case waiting =>
    intro id length isDistance waits atMost
    rcases mem_without.mp waits with ⟨waited, different⟩
    exact (List.mem_cons.mp (layered.waiting isDistance waited atMost)).resolve_left different
  case isNear =>
    intro id inNear waits
    exact layered.isNear id (List.mem_cons_of_mem node inNear) (mem_without.mp waits).1
  case isFar =>
    intro id member
    rcases List.mem_append.mp member with inFar | follows
    · exact layered.isFar id inFar
    · exact (Path.step (mem_following.mp follows) isNode.1).exists_isDistance
  case ahead =>
    intro id isDistance waits
    rcases layered.ahead isDistance (mem_without.mp waits).1 with
      inFar | ⟨next, nextWaits, linked, isNext⟩
    · exact .inl (List.mem_append_left _ inFar)
    · by_cases same : next = node
      · subst same
        exact .inl (List.mem_append_right _ (mem_following.mpr linked))
      · exact .inr ⟨next, mem_without.mpr ⟨nextWaits, same⟩, linked, isNext⟩

/-- Passing over an identity leaves both layers. -/
theorem Layered.pass (layered : Layered links origin distance unvisited (node :: near) far)
    (visited : node ∉ unvisited) : Layered links origin distance unvisited near far where
  visited := layered.visited
  waiting isDistance waits atMost := by
    rcases List.mem_cons.mp (layered.waiting isDistance waits atMost) with rfl | inNear
    · exact absurd waits visited
    · exact inNear
  isNear id inNear := layered.isNear id (List.mem_cons_of_mem node inNear)
  isFar := layered.isFar
  ahead := layered.ahead

/-! ## Walks -/

/-- A walk whose queue is in layers visits nothing that is nearer than the first of them, and
everything nearest first. -/
theorem Layered.nearestFirst {ε : Type} {next : Int → Except ε (List Int)} {order : List Int}
    (total : ∀ id, next id = .ok (following id))
    (mem_following : ∀ {id dependent : Int}, dependent ∈ following id ↔ ⟨dependent, id⟩ ∈ links)
    (layered : Layered links origin distance unvisited near far)
    (walked : walk next unvisited (near ++ far) = .ok order) :
    NearestFirst links origin order ∧
      ∀ id ∈ order, ∃ length, distance ≤ length ∧ IsDistance links length id origin := by
  generalize queue_eq : near ++ far = queue at walked
  induction unvisited, queue using visit_induction generalizing distance near far order with
  | empty unvisited =>
    rw [walk_nil] at walked
    cases walked
    exact ⟨.nil, by simp⟩
  | visit unvisited node rest waits inductionHypothesis =>
    rcases layered.exists_front queue_eq with ⟨reached, left, behind, further, rfl, front⟩
    have isNode := front.isNear node List.mem_cons_self waits
    rcases exists_walk_of_cons total waits walked with ⟨later, rfl, walkedRest⟩
    rcases inductionHypothesis (following node) (front.visit mem_following isNode)
      (List.append_assoc _ _ _).symm walkedRest with ⟨laterNearest, laterFurther⟩
    constructor
    · refine List.pairwise_cons.mpr ⟨fun id member => ?_, laterNearest⟩
      rcases laterFurther id member with ⟨length, atLeast, isDistance⟩
      exact ⟨reached, length, isNode, isDistance, atLeast⟩
    · rintro id (_ | ⟨_, member⟩)
      · exact ⟨reached, further, isNode⟩
      · rcases laterFurther id member with ⟨length, atLeast, isDistance⟩
        exact ⟨length, Nat.le_trans further atLeast, isDistance⟩
  | pass unvisited node rest visited inductionHypothesis =>
    rcases layered.exists_front queue_eq with ⟨reached, left, behind, further, rfl, front⟩
    rw [walk_cons_of_not_mem visited] at walked
    rcases inductionHypothesis (front.pass visited) rfl walked with ⟨nearest, allFurther⟩
    refine ⟨nearest, fun id member => ?_⟩
    rcases allFurther id member with ⟨length, atLeast, isDistance⟩
    exact ⟨length, Nat.le_trans further atLeast, isDistance⟩

/-- What depends on an identity is listed nearest first. -/
theorem Shows.nearestFirst {σ : Type} [Store σ] {state : σ} {order : List Int}
    (shows : Shows state following links) (found : downstreamOrder state origin = .ok order) :
    NearestFirst links origin order := by
  rw [downstreamOrder, shows.dependents origin] at found
  change walk _ _ (following origin) = _ at found
  have layered : Layered links origin 0 _ [] (following origin) :=
    layered_start shows.mem_following shows.mem_origins
  exact (layered.nearestFirst shows.dependents shows.mem_following found).1

end Formulary.Links
