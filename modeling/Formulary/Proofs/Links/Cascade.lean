import Formulary.Proofs.Links.Distance
import Formulary.Proofs.Links.OnePass
import Formulary.Proofs.Store.Faultless
import Formulary.Proofs.Store.Lookup

/-!
# Cascades in a store that does not fail

A cascade marks what depends on its origin nearest first. It ends early if the links lead back to the
origin, and otherwise it has marked every entry that depends on it and no other.
-/

namespace Formulary.Links

variable {memory : Memory} {origin : Int}

/-- What depends on an identity is listed without repetition and nearest first. -/
theorem exists_dependents (memory : Memory) (origin : Int) :
    ∃ order, downstreamOrder memory origin = .ok order ∧ order.Nodup ∧
      (∀ id, id ∈ order ↔ DependsOn memory.linkList id origin) ∧
        NearestFirst memory.linkList origin order := by
  have shows := memory.shows_own_links
  rcases shows.exists_downstreamOrder origin with ⟨order, found, nodup, mem_order⟩
  exact ⟨order, found, nodup, mem_order, shows.nearestFirst found⟩

/-- A cascade marks what is listed before its origin, and reports a circle if the origin is listed. -/
theorem cascade_eq {order : List Int} (found : downstreamOrder memory origin = .ok order) :
    ∃ after, Invalidated (· ∈ order.takeWhile (· != origin)) memory after ∧
      cascade origin memory =
        (if origin ∈ order then .error (.cycle origin)
          else .ok (present memory (order.takeWhile (· != origin))), after) := by
  have isRelated : (faultless Memory).related (Faulty.mk memory []) memory := rfl
  have mirrors := Engine.mirrors_of_agree (cascade_simulates (faultless Memory) origin isRelated)
  rw [cascade_of_listed ((downstreamOrder_eq isRelated origin).trans found)] at mirrors
  rcases markListed_cases mirrors with ⟨after, final_eq, invalidated, outcome⟩ | ⟨_, -, fails | fails⟩
  · exact ⟨after, invalidated, Prod.ext outcome (congrArg Faulty.inner final_eq)⟩
  · cases fails
  · cases fails

/-- Only the entries matter to which identities are marked. -/
theorem Invalidated.filter_present {ids : List Int} {before after : Memory}
    (invalidated : Invalidated (· ∈ ids) before after) :
    Invalidated (· ∈ present before ids) before after where
  linkList := invalidated.linkList
  lastId := invalidated.lastId
  within id member := invalidated.within id (List.mem_filter.mp member).1
  outside id isNot := by
    by_cases member : id ∈ ids
    · have absent : before.table.find? id = none := by
        by_contra filed
        exact isNot (List.mem_filter.mpr ⟨member, Option.isSome_iff_ne_none.mpr filed⟩)
      rw [invalidated.within id member, absent]
      rfl
    · exact invalidated.outside id member

/-- What has been marked once does not change when it is marked again. -/
theorem Invalidated.again {which : Int → Prop} {before middle after : Memory}
    (first : Invalidated which before middle) (second : Invalidated which middle after) :
    after = middle := by
  refine Memory.eq_of_find? (fun id => ?_) second.linkList second.lastId
  by_cases isWhich : which id
  · rw [second.within id isWhich, first.within id isWhich, Option.map_map]
    rfl
  · exact second.outside id isWhich

/-- Entries have no part in what depends on an identity. -/
theorem downstreamOrder_congr {first second : Memory} (same : first.linkList = second.linkList)
    (origin : Int) : downstreamOrder first origin = downstreamOrder second origin := by
  obtain ⟨table, links, lastId⟩ := first
  cases same
  rfl

/-- A cascade reports a circle exactly if its origin depends on itself. Otherwise it lists, nearest
first, the dependents that have an entry; it has marked these entries and changed nothing else, and
doing it again would change nothing. -/
theorem cascade_marks_dependents (memory : Memory) (origin : Int) :
    ((cascade origin memory).1 = .error (.cycle origin) ↔
        DependsOn memory.linkList origin origin) ∧
      (¬DependsOn memory.linkList origin origin →
        ∃ dependents reached after, downstream memory origin = .ok dependents ∧
          cascade origin memory = (.ok reached, after) ∧ reached.Nodup ∧
          (∀ id, id ∈ reached ↔ id ∈ dependents ∧ memory.table.find? id ≠ none) ∧
          NearestFirst memory.linkList origin reached ∧
          Invalidated (· ∈ reached) memory after ∧
          cascade origin after = (.ok reached, after)) := by
  rcases exists_dependents memory origin with ⟨order, found, nodup, mem_order, nearest⟩
  rcases cascade_eq found with ⟨after, invalidated, run⟩
  constructor
  · rw [run, ← mem_order]
    simp
  · intro independent
    have absent : origin ∉ order := mt (mem_order origin).mp independent
    have listed : downstream memory origin = .ok (IdSet.ofList order) := by
      rw [downstream, found]
      rfl
    have whole := takeWhile_of_not_mem absent
    rw [if_neg absent, whole] at run
    rw [whole] at invalidated
    have foundAgain := (downstreamOrder_congr invalidated.linkList origin).trans found
    rcases cascade_eq foundAgain with ⟨final, invalidatedAgain, runAgain⟩
    rw [whole] at invalidatedAgain
    rw [if_neg absent, whole, invalidated.present_eq, invalidated.again invalidatedAgain] at runAgain
    refine ⟨_, _, after, listed, run, nodup.filter _, fun id => ?_, nearest.filter _,
      invalidated.filter_present, runAgain⟩
    rw [present, List.mem_filter, IdSet.mem_ofList, Option.isSome_iff_ne_none]

end Formulary.Links
