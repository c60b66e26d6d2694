import Mathlib.Logic.Relation
import Formulary.Proofs.Engine.Renewal
import Formulary.Proofs.Store.Faultless

/-!
# What a reading can reach

A reading follows markers through stale entries, and files a value only after everything that the
value was taken from. So whatever a store holds, even formulas that refer to each other in a circle,
a reading changes only what is exposed to it; and if it answers, all of that has become fresh and
none of it lies on a circle.
-/

namespace Formulary

namespace Formula

/-- A text has a marker that names this identity. -/
def Names (text : List Char) (id : Int) : Prop :=
  ∃ digits, .marker digits ∈ segments text ∧ markerId? digits = some id

end Formula

namespace Engine

variable {evaluator : Formula.Evaluator} {settings : EngineSettings}
  {memory before middle after : Memory} {failing : List StoreMethod} {id other : Int}
  {entry : Entry} {chain : List Int} {read : Int → Action (Faulty Memory) Failure Calculation}
  {refresh : Int → Entry → Action (Faulty Memory) Failure Calculation}

/-! ## Exposed entries -/

/-- There is a stale entry under this identity. -/
def IsStale (memory : Memory) (id : Int) : Prop :=
  ∃ entry, memory.table.find? id = some entry ∧ entry.stale = true

/-- There is a fresh entry under this identity. -/
def IsFresh (memory : Memory) (id : Int) : Prop :=
  ∃ entry, memory.table.find? id = some entry ∧ entry.stale = false

/-- The formula under the first identity has a marker that names the second. -/
def RefersTo (memory : Memory) (id other : Int) : Prop :=
  ∃ entry, memory.table.find? id = some entry ∧ Formula.Names entry.formula other

/-- Markers lead from the first identity to the second through stale entries only, both of these
included. -/
inductive Exposed (memory : Memory) (id : Int) : Int → Prop where
  | self : IsStale memory id → Exposed memory id id
  | reference {next other : Int} :
      Exposed memory id next → RefersTo memory next other → IsStale memory other →
        Exposed memory id other

theorem IsFresh.not_isStale (fresh : IsFresh memory id) : ¬IsStale memory id := by
  rintro ⟨stale, filed, isStale⟩
  rcases fresh with ⟨entry, filedAgain, isFresh⟩
  cases filed.symm.trans filedAgain
  cases isStale.symm.trans isFresh

/-- Where the same formula is filed, the same is referred to. -/
theorem refersTo_congr
    (same : (after.table.find? id).map (·.formula) = (before.table.find? id).map (·.formula)) :
    RefersTo after id other ↔ RefersTo before id other := by
  have transfer : ∀ {first second : Memory}, (first.table.find? id).map (·.formula) =
      (second.table.find? id).map (·.formula) →
        RefersTo first id other → RefersTo second id other := by
    rintro first second same ⟨entry, filed, names⟩
    rw [filed, Option.map_some, eq_comm, Option.map_eq_some_iff] at same
    rcases same with ⟨found, filedOther, formula_eq⟩
    exact ⟨found, filedOther, formula_eq ▸ names⟩
  exact ⟨transfer same, transfer same.symm⟩

theorem IsStale.of_refreshed (refreshed : Refreshed before after) (stale : IsStale after id) :
    IsStale before id := by
  rcases stale with ⟨entry, filed, isStale⟩
  exact ⟨entry, refreshed.stale filed isStale, isStale⟩

theorem IsFresh.of_refreshed (refreshed : Refreshed before after) (fresh : IsFresh before id) :
    IsFresh after id := by
  rcases fresh with ⟨entry, filed, isFresh⟩
  exact ⟨entry, refreshed.fresh filed isFresh, isFresh⟩

theorem Exposed.isStale (exposed : Exposed memory id other) : IsStale memory other := by
  cases exposed with
  | self stale => exact stale
  | reference _ _ stale => exact stale

theorem Exposed.root_isStale (exposed : Exposed memory id other) : IsStale memory id := by
  induction exposed with
  | self stale => exact stale
  | reference _ _ _ inductionHypothesis => exact inductionHypothesis

/-- What is exposed after renewals was exposed before them. -/
theorem Exposed.of_refreshed (refreshed : Refreshed before after)
    (exposed : Exposed after id other) : Exposed before id other := by
  induction exposed with
  | self stale => exact .self (stale.of_refreshed refreshed)
  | @reference next other _ refers stale inductionHypothesis =>
    have refersBefore := (refersTo_congr (refreshed.formula next)).mp refers
    exact .reference inductionHypothesis refersBefore (stale.of_refreshed refreshed)

/-- What is exposed to a reference of a stale entry is exposed to the entry. -/
theorem Exposed.of_reference {next : Int} (stale : IsStale memory id)
    (refers : RefersTo memory id next) (exposed : Exposed memory next other) :
    Exposed memory id other := by
  induction exposed with
  | self staleNext => exact .reference (.self stale) refers staleNext
  | reference _ refersOther staleOther inductionHypothesis =>
    exact .reference inductionHypothesis refersOther staleOther

/-! ## Readings change what is exposed -/

/-- Nothing has changed but what was exposed to this identity. -/
def WithinExposed (id : Int) (before after : Memory) : Prop :=
  ∀ other, after.table.find? other = before.table.find? other ∨ Exposed before id other

/-- A way of reading that changes nothing but what is exposed to what is read. -/
def TouchesExposed (read : Int → Action (Faulty Memory) Failure Calculation) : Prop :=
  ∀ ⦃id : Int⦄ ⦃before : Memory⦄ ⦃failing : List StoreMethod⦄
    ⦃outcome : Except Failure Calculation⦄ ⦃after : Memory⦄,
    read id ⟨before, failing⟩ = (outcome, ⟨after, failing⟩) → WithinExposed id before after

theorem WithinExposed.refl (id : Int) (memory : Memory) : WithinExposed id memory memory :=
  fun _ => .inl rfl

theorem TouchesExposed.fetchAll (touches : TouchesExposed read) (reads : Reads evaluator chain read)
    {ids : List Int} {outcome : Except Failure (List (Int × Float))}
    (run : Formula.fetchAll (fun id => do return (← read id).result) ids ⟨before, failing⟩ =
      (outcome, ⟨after, failing⟩)) (other : Int) :
    after.table.find? other = before.table.find? other ∨ ∃ id ∈ ids, Exposed before id other := by
  induction ids generalizing before outcome with
  | nil =>
    cases run
    exact .inl rfl
  | cons id rest inductionHypothesis =>
    have first : ∀ {outcome : Except Failure Calculation} {middle : Memory},
        read id ⟨before, failing⟩ = (outcome, ⟨middle, failing⟩) →
          middle.table.find? other = before.table.find? other ∨
            ∃ next ∈ id :: rest, Exposed before next other := fun readOne =>
      (touches readOne other).imp_right fun exposed => ⟨id, List.mem_cons_self, exposed⟩
    rcases Action.bind_cases run with ⟨value, state, readRun, restRun⟩ | ⟨failure, readRun, rfl⟩
    · rcases Action.bind_eq_ok_iff.mp readRun with ⟨calculation, state', readOne, valueRun⟩
      cases valueRun
      rcases reads readOne with ⟨middle, rfl, renewals, -, -⟩
      have later : ∀ {outcome : Except Failure (List (Int × Float))},
          Formula.fetchAll (fun id => do return (← read id).result) rest ⟨middle, failing⟩ =
              (outcome, ⟨after, failing⟩) →
            after.table.find? other = before.table.find? other ∨
              ∃ next ∈ id :: rest, Exposed before next other := by
        intro outcome fetched
        rcases inductionHypothesis fetched with same | ⟨next, inRest, exposed⟩
        · rw [same]
          exact first readOne
        · exact .inr ⟨next, List.mem_cons_of_mem id inRest,
            exposed.of_refreshed renewals.refreshed⟩
      rcases Action.bind_cases restRun with ⟨others, state, fetched, last⟩ | ⟨_, fetched, -⟩
      · cases last
        exact later fetched
      · exact later fetched
    · rcases Action.bind_cases readRun with ⟨_, _, -, impossible⟩ | ⟨_, readOne, -⟩
      · cases impossible
      · exact first readOne

/-- Evaluating a formula changes nothing but what is exposed to what its markers name. -/
theorem TouchesExposed.evaluateWith (touches : TouchesExposed read)
    (reads : Reads evaluator chain read) {formula : List Char} {self : Option Int}
    {outcome : Except Failure Evaluated}
    (run : Engine.evaluateWith evaluator read formula self ⟨before, failing⟩ =
      (outcome, ⟨after, failing⟩)) (other : Int) :
    after.table.find? other = before.table.find? other ∨
      ∃ id, Formula.Names formula id ∧ Exposed before id other := by
  rcases Action.bind_cases run with ⟨ids, state, found, rest⟩ | ⟨_, found, -⟩
  · rcases Action.ofExcept_mapError_eq_ok_iff.mp found with ⟨sound, rfl⟩
    have references := (Formula.dependencies_eq_ok_iff.mp sound).1
    have changed : ∀ {outcome : Except Failure (List (Int × Float))},
        Formula.fetchAll (fun id => do return (← read id).result) ids.toList ⟨before, failing⟩ =
            (outcome, ⟨after, failing⟩) →
          after.table.find? other = before.table.find? other ∨
            ∃ id, Formula.Names formula id ∧ Exposed before id other := fun fetched =>
      (touches.fetchAll reads fetched other).imp_right fun ⟨id, member, exposed⟩ =>
        ⟨id, (Formula.mem_references_iff references).mp (IdSet.mem_def.mpr member), exposed⟩
    rcases Action.bind_cases rest with ⟨values, state, fetched, last⟩ | ⟨_, fetched, -⟩
    · cases last
      exact changed fetched
    · exact changed fetched
  · rcases Action.ofExcept_mapError_eq_error_iff.mp found with ⟨_, -, -, same⟩
    cases same
    exact .inl rfl

theorem touchesExposed_readWith
    (refreshes : ∀ {id entry before failing outcome after},
      before.table.find? id = some entry → entry.stale = true →
        refresh id entry ⟨before, failing⟩ = (outcome, ⟨after, failing⟩) →
          WithinExposed id before after) : TouchesExposed (readWith refresh) := by
  intro id before failing outcome after run
  rcases readWith_cases run with
    ⟨entry, filed, ⟨-, -, same⟩ | ⟨stale, renewed⟩⟩ | ⟨_, -, -, same⟩
  · cases same
    exact .refl id before
  · exact refreshes filed stale renewed
  · cases same
    exact .refl id before

/-- Evaluating a stale entry anew changes nothing but what is exposed to it. -/
theorem refreshWithin_withinExposed (settings : EngineSettings) (levels : Nat) (chain : List Int)
    {outcome : Except Failure Calculation} (filed : before.table.find? id = some entry)
    (stale : entry.stale = true)
    (run : refreshWithin settings levels chain id entry (Faulty.mk before failing) =
      (outcome, ⟨after, failing⟩)) : WithinExposed id before after := by
  induction levels generalizing chain id entry before failing outcome after with
  | zero =>
    rw [refreshWithin] at run
    split at run
    · cases run
      exact .refl id before
    · cases run
      exact .refl id before
  | succ levels inductionHypothesis =>
    have touches := touchesExposed_readWith (inductionHypothesis (id :: chain))
    have reads := (refreshWithin_renews settings levels (id :: chain)).readWith
    have isStale : IsStale before id := ⟨entry, filed, stale⟩
    rcases refreshWithin_succ_cases run with ⟨-, -, same⟩ | ⟨-, _, state, evaluation, outcomes⟩
    · cases same
      exact .refl id before
    · rcases reads.evaluateWith evaluation with ⟨middle, rfl, -, -, -⟩
      have evaluated : WithinExposed id before middle := by
        intro other
        apply (touches.evaluateWith reads evaluation other).imp_right
        rintro ⟨next, names, exposed⟩
        exact .of_reference isStale ⟨entry, filed, names⟩ exposed
      rcases outcomes with ⟨_, -, -, same⟩ | ⟨_, -, ⟨-, -, same⟩ | ⟨-, same, -⟩⟩
      · cases same
        exact evaluated
      · cases same
        intro other
        by_cases isSelf : other = id
        · subst isSelf
          exact .inr (.self isStale)
        · rw [Memory.find?_file_of_ne isSelf]
          exact evaluated other
      · cases same
        exact evaluated

theorem touchesExposed_refreshWithin (settings : EngineSettings) (levels : Nat)
    (chain : List Int) : TouchesExposed (readWith (refreshWithin settings levels chain)) :=
  touchesExposed_readWith (refreshWithin_withinExposed settings levels chain)

/-! ## Readings that answer meet no circle -/

/-- A stale entry has become fresh. -/
def Renewed (before after : Memory) (id : Int) : Prop :=
  IsStale before id ∧ IsFresh after id

/-- A renewal makes its own entry fresh and leaves all others as they were. -/
theorem Renewal.renewed_cases (renewal : Renewal evaluator other middle after)
    (renewed : Renewed before after id) : id = other ∨ Renewed before middle id := by
  by_cases same : id = other
  · exact .inl same
  · rcases renewal with ⟨_, _⟩
    rcases renewed with ⟨stale, found, filed, fresh⟩
    rw [Memory.find?_file_of_ne same] at filed
    exact .inr ⟨stale, found, filed, fresh⟩

/-- What a renewed entry refers to was fresh before. -/
theorem Renewal.isFresh_of_names (renewal : Renewal evaluator id middle after)
    (refers : RefersTo middle id other) : IsFresh middle other := by
  rcases renewal with ⟨filed, evaluates⟩
  rcases refers with ⟨_, filedAgain, names⟩
  cases filed.symm.trans filedAgain
  have references := (Formula.dependencies_eq_ok_iff.mp evaluates.dependencies).1
  exact evaluates.fresh ((Formula.mem_references_iff references).mpr names)

/-- Whatever a renewed entry refers to is fresh in the end. -/
theorem Renewals.isFresh_of_refersTo (renewals : Renewals evaluator before after)
    (renewed : Renewed before after id) (refers : RefersTo before id other) :
    IsFresh after other := by
  induction renewals with
  | refl => exact absurd renewed.1 renewed.2.not_isStale
  | tail earlier filed stale renewal inductionHypothesis =>
    apply IsFresh.of_refreshed (Renewals.refl.tail filed stale renewal).refreshed
    rcases renewal.renewed_cases renewed with rfl | renewedEarlier
    · exact renewal.isFresh_of_names ((refersTo_congr (earlier.refreshed.formula _)).mpr refers)
    · exact inductionHypothesis renewedEarlier

/-- The first of two renewed entries refers to the second. -/
def RenewedFor (before after : Memory) (id other : Int) : Prop :=
  Renewed before after id ∧ RefersTo before id other ∧ Renewed before after other

/-- Nothing renewed refers to what is renewed last: it would have been renewed after that. -/
theorem Renewals.not_renewedFor_last {last : Int} (earlier : Renewals evaluator before middle)
    (stale : IsStale middle last) (renewal : Renewal evaluator last middle after) :
    ¬RenewedFor before after id last := by
  rintro ⟨renewed, refers, -⟩
  apply IsFresh.not_isStale _ stale
  rcases renewal.renewed_cases renewed with rfl | renewedEarlier
  · exact renewal.isFresh_of_names ((refersTo_congr (earlier.refreshed.formula _)).mpr refers)
  · exact earlier.isFresh_of_refersTo renewedEarlier refers

/-- Where nothing leads to a place, a chain that begins elsewhere avoids it. -/
theorem transGen_avoiding {leads leadsElsewhere : Int → Int → Prop} {place first last : Int}
    (unreached : ∀ id, ¬leads id place)
    (elsewhere : ∀ id next, id ≠ place → next ≠ place → leads id next → leadsElsewhere id next)
    (different : first ≠ place) (chain : Relation.TransGen leads first last) :
    Relation.TransGen leadsElsewhere first last := by
  have reached_ne : ∀ {id next : Int}, leads id next → next ≠ place := by
    rintro id next led rfl
    exact unreached id led
  induction chain with
  | single led => exact .single (elsewhere _ _ different (reached_ne led) led)
  | tail earlier led inductionHypothesis =>
    rcases Relation.TransGen.tail'_iff.mp earlier with ⟨_, -, ledEarlier⟩
    exact .tail inductionHypothesis (elsewhere _ _ (reached_ne ledEarlier) (reached_ne led) led)

/-- Renewed entries do not refer to each other in a circle. -/
theorem Renewals.not_transGen_renewedFor (renewals : Renewals evaluator before after) :
    ¬Relation.TransGen (RenewedFor before after) id id := by
  induction renewals generalizing id with
  | refl =>
    intro circle
    rcases Relation.TransGen.head'_iff.mp circle with ⟨next, ⟨renewed, -⟩, -⟩
    exact renewed.2.not_isStale renewed.1
  | @tail middle after last entry earlier filed stale renewal inductionHypothesis =>
    intro circle
    have unreferenced : ∀ first, ¬RenewedFor before after first last := fun _ =>
      earlier.not_renewedFor_last ⟨entry, filed, stale⟩ renewal
    have different : id ≠ last := by
      rintro rfl
      rcases Relation.TransGen.tail'_iff.mp circle with ⟨first, -, renewedFor⟩
      exact unreferenced first renewedFor
    apply inductionHypothesis (transGen_avoiding unreferenced _ different circle)
    rintro first second firstElsewhere secondElsewhere ⟨renewed, refers, renewedNext⟩
    exact ⟨(renewal.renewed_cases renewed).resolve_left firstElsewhere, refers,
      (renewal.renewed_cases renewedNext).resolve_left secondElsewhere⟩

/-- Once an entry is fresh, everything that was exposed to it is. -/
theorem Renewals.isFresh_of_exposed (renewals : Renewals evaluator before after)
    (fresh : IsFresh after id) (exposed : Exposed before id other) : IsFresh after other := by
  induction exposed with
  | self => exact fresh
  | reference exposed refers _ inductionHypothesis =>
    exact renewals.isFresh_of_refersTo ⟨exposed.isStale, inductionHypothesis⟩ refers

/-! ## Stores of any content -/

/-- The first of two exposed entries refers to the second. -/
def ExposedFor (memory : Memory) (root id other : Int) : Prop :=
  Exposed memory root id ∧ RefersTo memory id other ∧ Exposed memory root other

/-- Whatever a store holds, a reading ends. However it does, no formula and no link has changed, no
entry has come or gone, and what has changed is exposed to the reading and has become fresh. If it
answers, it answers what is filed then, everything that was exposed to it has become fresh, and the
markers of that run in no circle. -/
theorem read_renews_exposed (settings : EngineSettings) (memory : Memory) (id : Int) :
    ∃ outcome after, Engine.read settings id memory = (outcome, after) ∧
      (after.linkList = memory.linkList ∧ after.lastId = memory.lastId ∧
        ∀ other, (after.table.find? other).map (·.formula) =
          (memory.table.find? other).map (·.formula)) ∧
        (∀ other, after.table.find? other ≠ memory.table.find? other →
          Exposed memory id other ∧ IsFresh after other) ∧
          ∀ calculation, outcome = .ok calculation →
            (∃ entry, after.table.find? id = some entry ∧ entry.stale = false ∧
              calculation = entry.withId id) ∧
              (∀ other, Exposed memory id other → IsFresh after other) ∧
                ∀ other, ¬Relation.TransGen (ExposedFor memory id) other other := by
  have run := read_mirrors settings id memory
  rcases read_renews settings run with ⟨after, same, renewals, -, answers⟩
  cases same
  have refreshed := renewals.refreshed
  refine ⟨(Engine.read settings id memory).1, (Engine.read settings id memory).2, rfl,
    ⟨refreshed.linkList, refreshed.lastId, refreshed.formula⟩, ?_, ?_⟩
  · intro other changed
    constructor
    · exact (touchesExposed_refreshWithin settings settings.maxDepth [] run other).resolve_left
        changed
    · rcases refreshed.entry other with same | ⟨_, _, _, _, renewed⟩
      · exact absurd same changed
      · exact ⟨_, renewed, rfl⟩
  · intro calculation answered
    rcases answers calculation answered with ⟨entry, filed, fresh, calculation_eq⟩
    have allFresh : ∀ {other : Int}, Exposed memory id other → IsFresh _ other :=
      renewals.isFresh_of_exposed ⟨entry, filed, fresh⟩
    refine ⟨⟨entry, filed, fresh, calculation_eq⟩, fun _ => allFresh, fun other circle => ?_⟩
    have renewedFor : ∀ first second, ExposedFor memory id first second →
        RenewedFor memory (Engine.read settings id memory).2 first second := by
      rintro first second ⟨exposed, refers, exposedNext⟩
      exact ⟨⟨exposed.isStale, allFresh exposed⟩, refers, exposedNext.isStale,
        allFresh exposedNext⟩
    exact renewals.not_transGen_renewedFor (Relation.TransGen.mono renewedFor _ _ circle)

/-- Two entries that refer to each other, the second of them fresh, one that the first refers to as
well, and one that refers to itself. -/
def circularStore : Memory :=
  ⟨.ofList [(1, ⟨"\x7b2\x7d+\x7b3\x7d".toList, 0, true⟩), (2, ⟨"\x7b1\x7d".toList, 7, false⟩),
    (3, ⟨"4".toList, 0, true⟩), (4, ⟨"\x7b4\x7d".toList, 0, true⟩)], [⟨4, 4⟩], 4⟩

/-- The fresh entry cuts the circle, so the first entry can be read; what refers to itself cannot. -/
theorem read_renews_exposed_circularStore :
    (∃ calculation after, Engine.read {} 1 circularStore = (.ok calculation, after) ∧
      calculation.result = 11 ∧ Exposed circularStore 1 3 ∧ IsFresh after 3 ∧
        (∀ other, ¬Relation.TransGen (ExposedFor circularStore 1) other other) ∧
          after.table.find? 4 = circularStore.table.find? 4) ∧
      ∃ failure after, Engine.read {} 4 circularStore = (.error failure, after) ∧
        after.linkList = [⟨4, 4⟩] := by
  have evaluated : (Engine.read {} 1 circularStore).1.map (·.result) = .ok 11 ∧
      (Engine.read {} 1 circularStore).2.table.find? 3 ≠ circularStore.table.find? 3 ∧
        (Engine.read {} 1 circularStore).2.table.find? 4 = circularStore.table.find? 4 ∧
          (Engine.read {} 4 circularStore).1.isOk = false := by decide +kernel
  rcases read_renews_exposed {} circularStore 1 with ⟨outcome, after, run, -, changed, answers⟩
  rcases read_renews_exposed {} circularStore 4 with ⟨refusal, afterRefusal, refused, ⟨links, -⟩, -⟩
  rw [run, refused] at evaluated
  rcases evaluated with ⟨valued, moved, kept, fails⟩
  constructor
  · cases outcome with
    | error failure => cases valued
    | ok calculation =>
      rcases changed 3 moved with ⟨exposed, fresh⟩
      exact ⟨calculation, after, run, Except.ok.inj valued, exposed, fresh,
        (answers calculation rfl).2.2, kept⟩
  · cases refusal with
    | ok calculation => cases fails
    | error failure => exact ⟨failure, afterRefusal, refused, links⟩

end Engine

end Formulary
