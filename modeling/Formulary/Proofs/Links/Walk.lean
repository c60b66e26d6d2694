import Formulary.Links.Basic
import Formulary.Links.Path
import Formulary.Store.Faulty
import Formulary.Store.Memory

/-!
# What a walk along links visits

A walk takes one identity after the other from its queue, and so does a cascade, which marks what it
visits. A walk whose looks at the store succeed visits exactly what can be reached from its queue,
each identity once. For a store in memory this makes `downstreamOrder` the list of everything that
depends on an identity.
-/

namespace Formulary.Links

variable {σ ε : Type}

/-! ## One identity of the queue at a time -/

theorem mem_without {node id : Int} {ids : List Int} :
    id ∈ without node ids ↔ id ∈ ids ∧ id ≠ node := by
  simp [without]

/-- Induction on the queue of a walk. An identity at its front is visited, which puts others behind
the rest of the queue but leaves less to visit, or it is passed over. -/
theorem visit_induction {motive : List Int → List Int → Prop}
    (empty : ∀ unvisited, motive unvisited [])
    (visit : ∀ unvisited node rest, node ∈ unvisited →
      (∀ following, motive (without node unvisited) (rest ++ following)) →
        motive unvisited (node :: rest))
    (pass : ∀ unvisited node rest, node ∉ unvisited → motive unvisited rest →
      motive unvisited (node :: rest)) (unvisited queue : List Int) : motive unvisited queue := by
  match queue with
  | [] => exact empty unvisited
  | node :: rest =>
    by_cases waits : node ∈ unvisited
    · exact visit unvisited node rest waits fun following =>
        visit_induction empty visit pass (without node unvisited) (rest ++ following)
    · exact pass unvisited node rest waits (visit_induction empty visit pass unvisited rest)
termination_by (unvisited.length, queue.length)
decreasing_by
  · exact Prod.Lex.left _ _ (length_without_lt waits)
  · exact Prod.Lex.right _ (Nat.lt_succ_self _)

section

variable {next : Int → Except ε (List Int)} {following : Int → List Int}
  {unvisited rest order : List Int} {origin node : Int}

theorem walk_nil : walk next unvisited [] = .ok [] := by
  rw [walk]
  rfl

/-- An identity that waits to be visited is visited, and the walk goes on to what follows it. -/
theorem walk_cons_of_mem (total : ∀ id, next id = .ok (following id)) (waits : node ∈ unvisited) :
    walk next unvisited (node :: rest) =
      (walk next (without node unvisited) (rest ++ following node)).map (node :: ·) := by
  have front : ((node :: rest).dropWhile fun id => !unvisited.contains id) = node :: rest :=
    List.dropWhile_cons_of_neg (by simpa using waits)
  rw [walk, front]
  simp only [total node]
  change (walk next (without node unvisited) (rest ++ following node) >>= fun later =>
    pure (node :: later)) = _
  cases walk next (without node unvisited) (rest ++ following node) <;> rfl

/-- An identity that does not wait to be visited is passed over. -/
theorem walk_cons_of_not_mem (visited : node ∉ unvisited) :
    walk next unvisited (node :: rest) = walk next unvisited rest := by
  have front : ((node :: rest).dropWhile fun id => !unvisited.contains id) =
      rest.dropWhile fun id => !unvisited.contains id :=
    List.dropWhile_cons_of_pos (by simpa using visited)
  rw [walk, walk.eq_1 next unvisited rest, front]

theorem exists_walk_of_cons (total : ∀ id, next id = .ok (following id)) (waits : node ∈ unvisited)
    (walked : walk next unvisited (node :: rest) = .ok order) :
    ∃ later, order = node :: later ∧
      walk next (without node unvisited) (rest ++ following node) = .ok later := by
  rw [walk_cons_of_mem total waits] at walked
  match later_eq : walk next (without node unvisited) (rest ++ following node) with
  | .ok later =>
    rw [later_eq] at walked
    cases walked
    exact ⟨later, rfl, rfl⟩
  | .error error =>
    rw [later_eq] at walked
    cases walked

variable [Store σ]

theorem markReached_nil : markReached origin unvisited [] = (pure [] : Action σ LinkError _) := by
  rw [markReached]
  rfl

/-- Where the origin comes up in the queue, the links have led back to it. -/
theorem markReached_cons_self :
    markReached origin unvisited (origin :: rest) =
      (.fail (.cycle origin) : Action σ LinkError (List Int)) := by
  have front : ((origin :: rest).dropWhile fun id => id != origin && !unvisited.contains id) =
      origin :: rest := List.dropWhile_cons_of_neg (by simp)
  rw [markReached, front]
  exact dif_pos rfl

theorem markReached_cons_of_mem (different : node ≠ origin) (waits : node ∈ unvisited) :
    markReached origin unvisited (node :: rest) = (do
      let present ← Action.mapError .store (markStale node)
      let following ← Action.mapError .store (.inspect fun state => Store.dependents state node)
      let others ← markReached origin (without node unvisited) (rest ++ following)
      return if present then node :: others else others : Action σ LinkError (List Int)) := by
  have front : ((node :: rest).dropWhile fun id => id != origin && !unvisited.contains id) =
      node :: rest := List.dropWhile_cons_of_neg (by simp [waits])
  rw [markReached, front]
  exact dif_neg different

theorem markReached_cons_of_not_mem (different : node ≠ origin) (visited : node ∉ unvisited) :
    markReached origin unvisited (node :: rest) =
      (markReached origin unvisited rest : Action σ LinkError (List Int)) := by
  have front : ((node :: rest).dropWhile fun id => id != origin && !unvisited.contains id) =
      rest.dropWhile fun id => id != origin && !unvisited.contains id :=
    List.dropWhile_cons_of_pos (by simp [different, visited])
  rw [markReached, markReached.eq_1 origin unvisited rest, front]

end

/-! ## Walks -/

/-- What the list of visited identities has to do with the queue and with what follows what. -/
structure Visits (following : Int → List Int) (unvisited queue order : List Int) : Prop where
  nodup : order.Nodup
  subset : ∀ id ∈ order, id ∈ unvisited
  queued : ∀ id ∈ queue, id ∈ unvisited → id ∈ order
  closed : ∀ id ∈ order, ∀ next ∈ following id, next ∈ unvisited → next ∈ order
  reached : ∀ reachable : Int → Prop, (∀ id ∈ queue, reachable id) →
    (∀ id, reachable id → ∀ next ∈ following id, reachable next) → ∀ id ∈ order, reachable id

variable {following : Int → List Int} {unvisited rest order : List Int} {node : Int}

/-- Visiting one more identity first. -/
theorem Visits.cons (waits : node ∈ unvisited)
    (later : Visits following (without node unvisited) (rest ++ following node) order) :
    Visits following unvisited (node :: rest) (node :: order) := by
  constructor
  · rw [List.nodup_cons]
    constructor
    · intro again
      exact (mem_without.mp (later.subset node again)).2 rfl
    · exact later.nodup
  · intro id member
    rcases List.mem_cons.mp member with rfl | inOrder
    · exact waits
    · exact (mem_without.mp (later.subset id inOrder)).1
  · intro id inQueue waiting
    by_cases same : id = node
    · exact same ▸ List.mem_cons_self
    · have inRest := (List.mem_cons.mp inQueue).resolve_left same
      exact List.mem_cons_of_mem node
        (later.queued id (List.mem_append_left _ inRest) (mem_without.mpr ⟨waiting, same⟩))
  · intro id member next follows waiting
    by_cases same : next = node
    · exact same ▸ List.mem_cons_self
    · have waitingStill := mem_without.mpr ⟨waiting, same⟩
      rcases List.mem_cons.mp member with rfl | inOrder
      · exact List.mem_cons_of_mem id
          (later.queued next (List.mem_append_right _ follows) waitingStill)
      · exact List.mem_cons_of_mem node (later.closed id inOrder next follows waitingStill)
  · intro reachable start step id member
    have first : reachable node := start node List.mem_cons_self
    rcases List.mem_cons.mp member with rfl | inOrder
    · exact first
    · apply later.reached reachable _ step id inOrder
      intro other inQueue
      rcases List.mem_append.mp inQueue with inRest | follows
      · exact start other (List.mem_cons_of_mem node inRest)
      · exact step node first other follows

/-- Passing over an identity first. -/
theorem Visits.pass (visited : node ∉ unvisited)
    (visits : Visits following unvisited rest order) :
    Visits following unvisited (node :: rest) order where
  nodup := visits.nodup
  subset := visits.subset
  queued id inQueue waiting := by
    rcases List.mem_cons.mp inQueue with rfl | inRest
    · exact absurd waiting visited
    · exact visits.queued id inRest waiting
  closed := visits.closed
  reached reachable start := visits.reached reachable fun id inRest =>
    start id (List.mem_cons_of_mem node inRest)

/-- A walk that can always look on ends and visits what it should. -/
theorem exists_visits_of_walk {next : Int → Except ε (List Int)}
    (total : ∀ id, next id = .ok (following id)) (unvisited queue : List Int) :
    ∃ order, walk next unvisited queue = .ok order ∧ Visits following unvisited queue order := by
  induction unvisited, queue using visit_induction with
  | empty unvisited => exact ⟨[], walk_nil, by simp, by simp, by simp, by simp, by simp⟩
  | visit unvisited node rest waits inductionHypothesis =>
    rcases inductionHypothesis (following node) with ⟨order, walked, later⟩
    refine ⟨node :: order, ?_, later.cons waits⟩
    rw [walk_cons_of_mem total waits, walked]
    rfl
  | pass unvisited node rest visited inductionHypothesis =>
    rcases inductionHypothesis with ⟨order, walked, visits⟩
    exact ⟨order, (walk_cons_of_not_mem visited).trans walked, visits.pass visited⟩

/-! ## Everything that depends on an identity -/

/-- A store whose looks at its links succeed, and what they show: `following` are the dependents and
`links` are all links. -/
structure Shows {σ : Type} [Store σ] (state : σ) (following : Int → List Int)
    (links : List Link) : Prop where
  dependents : ∀ id, Store.dependents state id = .ok (following id)
  mem_following : ∀ {id dependent : Int}, dependent ∈ following id ↔ ⟨dependent, id⟩ ∈ links
  mem_links : ∀ {link : Link}, link ∈ Store.links state ↔ link ∈ links

/-- A walk may visit whatever is linked to something. -/
theorem Shows.mem_origins {σ : Type} [Store σ] {state : σ} {following : Int → List Int}
    {links : List Link} (shows : Shows state following links) {id next : Int}
    (linked : ⟨id, next⟩ ∈ links) : id ∈ (Store.links state).map (·.origin) :=
  List.mem_map.mpr ⟨_, shows.mem_links.mpr linked, rfl⟩

/-- A store that shows its links lists exactly what depends on an identity, each once. -/
theorem Shows.exists_downstreamOrder {σ : Type} [Store σ] {state : σ} {following : Int → List Int}
    {links : List Link} (shows : Shows state following links) (origin : Int) :
    ∃ order, downstreamOrder state origin = .ok order ∧ order.Nodup ∧
      ∀ id, id ∈ order ↔ DependsOn links id origin := by
  obtain ⟨order, walked, visits⟩ := exists_visits_of_walk shows.dependents
    ((Store.links state).map (·.origin)) (following origin)
  refine ⟨order, ?_, visits.nodup, fun id => ⟨fun member => ?_, fun depends => ?_⟩⟩
  · rw [downstreamOrder, shows.dependents origin]
    exact walked
  · apply visits.reached (DependsOn links · origin) _ _ id member
    · intro direct follows
      exact ⟨1, .single (shows.mem_following.mp follows)⟩
    · intro middle depends next follows
      exact DependsOn.trans ⟨1, .single (shows.mem_following.mp follows)⟩ depends
  · rcases depends with ⟨length, path⟩
    induction path with
    | single linked =>
      exact visits.queued _ (shows.mem_following.mpr linked) (shows.mem_origins linked)
    | step linked _ inductionHypothesis =>
      exact visits.closed _ (inductionHypothesis walked visits) _
        (shows.mem_following.mpr linked) (shows.mem_origins linked)

end Formulary.Links

namespace Formulary.Memory

open Links

/-- The identities that depend directly on an identity, in ascending order. -/
def dependentsOf (memory : Memory) (id : Int) : List Int :=
  (IdSet.ofList ((memory.linkList.filter fun link => link.destination == id).map (·.origin))).toList

theorem mem_dependentsOf {memory : Memory} {id dependent : Int} :
    dependent ∈ memory.dependentsOf id ↔ ⟨dependent, id⟩ ∈ memory.linkList := by
  rw [dependentsOf, ← IdSet.mem_def, IdSet.mem_ofList]
  simp only [List.mem_map, List.mem_filter, beq_iff_eq]
  constructor
  · rintro ⟨link, ⟨member, rfl⟩, rfl⟩
    exact member
  · exact fun member => ⟨_, ⟨member, rfl⟩, rfl⟩

theorem shows_own_links (memory : Memory) :
    Shows memory memory.dependentsOf memory.linkList where
  dependents _ := rfl
  mem_following := mem_dependentsOf
  mem_links := List.mem_mergeSort

/-- A store in memory shows its links unless its looks at them fail. -/
theorem shows_links (memory : Memory) {failing : List StoreMethod}
    (works : .dependents ∉ failing) :
    Shows (Faulty.mk memory failing) memory.dependentsOf memory.linkList where
  dependents _ := if_neg works
  mem_following := mem_dependentsOf
  mem_links := List.mem_mergeSort

end Formulary.Memory
