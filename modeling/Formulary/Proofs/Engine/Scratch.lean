import Formulary.Engine.Scratch
import Formulary.Proofs.Engine.Consistency

/-!
# Values from scratch

Evaluating from scratch has at most one outcome, and this depends on nothing but the formulas that
can be reached. So every fresh entry keeps the value it has from scratch through all changes that an
operation can make, as long as the evaluator stays the same.
-/

namespace Formulary.Engine

open Links

/-! ## One outcome -/

/-- The outcome for a formula once its references have been evaluated. -/
def combined (evaluator : Formula.Evaluator) (formula : List Char) (id : Int)
    (read : Except Failure (List (Int × Float))) : Except Failure Float :=
  read.bind fun values =>
    (recompute evaluator formula (some id) (Table.ofList values)).map (·.result)

section

variable {evaluator : Formula.Evaluator} {memory : Memory} {id : Int}

theorem FromScratch.eq_of_missing {outcome : Except Failure Float}
    (evaluation : FromScratch evaluator memory id outcome) (absent : memory.table.find? id = none) :
    outcome = .error (.notFound id) := by
  cases evaluation with
  | missing => rfl
  | unsound filed | unread filed | evaluated filed => cases absent.symm.trans filed

theorem FromScratch.eq_of_unsound {outcome : Except Failure Float} {entry : Entry}
    {fault : Formula.Fault} (evaluation : FromScratch evaluator memory id outcome)
    (filed : memory.table.find? id = some entry)
    (refused : Formula.dependencies entry.formula (some id) = .error fault) :
    outcome = .error (.formula fault) := by
  cases evaluation with
  | missing absent => cases absent.symm.trans filed
  | unsound filedAgain refusedAgain =>
    cases filed.symm.trans filedAgain
    cases refused.symm.trans refusedAgain
    rfl
  | unread filedAgain found | evaluated filedAgain found =>
    cases filed.symm.trans filedAgain
    cases refused.symm.trans found

theorem FromScratch.exists_combined {outcome : Except Failure Float} {entry : Entry} {ids : IdSet}
    (evaluation : FromScratch evaluator memory id outcome)
    (filed : memory.table.find? id = some entry)
    (found : Formula.dependencies entry.formula (some id) = .ok ids) :
    ∃ read, AllFromScratch evaluator memory ids.toList read ∧
      outcome = combined evaluator entry.formula id read := by
  cases evaluation with
  | missing absent => cases absent.symm.trans filed
  | unsound filedAgain refused =>
    cases filed.symm.trans filedAgain
    cases refused.symm.trans found
  | unread filedAgain foundAgain all | evaluated filedAgain foundAgain all =>
    cases filed.symm.trans filedAgain
    cases found.symm.trans foundAgain
    exact ⟨_, all, rfl⟩

end

mutual

/-- Evaluating from scratch has one outcome. -/
theorem FromScratch.unique {evaluator : Formula.Evaluator} {memory : Memory} {id : Int}
    {first second : Except Failure Float} :
    FromScratch evaluator memory id first → FromScratch evaluator memory id second → first = second
  | .missing absent, other => (other.eq_of_missing absent).symm
  | .unsound filed refused, other => (other.eq_of_unsound filed refused).symm
  | .unread filed found all, other => by
    rcases other.exists_combined filed found with ⟨read, again, rfl⟩
    rw [← all.unique again]
    rfl
  | .evaluated filed found all, other => by
    rcases other.exists_combined filed found with ⟨read, again, rfl⟩
    rw [← all.unique again]
    rfl

theorem AllFromScratch.unique {evaluator : Formula.Evaluator} {memory : Memory} {ids : List Int}
    {first second : Except Failure (List (Int × Float))} :
    AllFromScratch evaluator memory ids first → AllFromScratch evaluator memory ids second →
      first = second
  | .done, .done => rfl
  | .failed failed, .failed again => congrArg _ (Except.error.inj (failed.unique again))
  | .failed failed, .later value _ => nomatch failed.unique value
  | .failed failed, .read value _ => nomatch failed.unique value
  | .later value _, .failed failed => nomatch value.unique failed
  | .later _ failed, .later _ again => congrArg _ (Except.error.inj (failed.unique again))
  | .later _ failed, .read _ values => nomatch failed.unique values
  | .read value _, .failed failed => nomatch value.unique failed
  | .read _ values, .later _ failed => nomatch values.unique failed
  | .read value values, .read again others => by
    cases value.unique again
    cases values.unique others
    rfl

end

/-! ## What the outcome depends on -/

/-- The second store has the formulas of the first wherever `kept` holds, and formulas there refer
to nothing else. -/
structure Keeps (kept : Int → Prop) (before after : Memory) : Prop where
  formula : ∀ id, kept id →
    (after.table.find? id).map (·.formula) = (before.table.find? id).map (·.formula)
  closed : ∀ id entry ids, kept id → before.table.find? id = some entry →
    Formula.references entry.formula = .ok ids → ∀ other ∈ ids, kept other

theorem Keeps.find? {kept : Int → Prop} {before after : Memory} (keeps : Keeps kept before after)
    {id : Int} {entry : Entry} (isKept : kept id) (filed : before.table.find? id = some entry) :
    ∃ found, after.table.find? id = some found ∧ found.formula = entry.formula := by
  have same := keeps.formula id isKept
  rw [filed, Option.map_some, Option.map_eq_some_iff] at same
  exact same

theorem Keeps.reference {kept : Int → Prop} {before after : Memory}
    (keeps : Keeps kept before after)
    {id : Int} {entry : Entry} {ids : IdSet} (isKept : kept id)
    (filed : before.table.find? id = some entry)
    (found : Formula.dependencies entry.formula (some id) = .ok ids) :
    ∀ other ∈ ids.toList, kept other :=
  keeps.closed id entry ids isKept filed (Formula.dependencies_eq_ok_iff.mp found).1

mutual

/-- The outcome from scratch depends on the formulas that can be reached alone. -/
theorem FromScratch.transfer {evaluator : Formula.Evaluator} {kept : Int → Prop}
    {before after : Memory} (keeps : Keeps kept before after) {id : Int}
    {outcome : Except Failure Float} (isKept : kept id) :
    FromScratch evaluator before id outcome → FromScratch evaluator after id outcome
  | .missing absent => .missing (by
      have same := keeps.formula id isKept
      rwa [absent, Option.map_none, Option.map_eq_none_iff] at same)
  | .unsound filed refused => by
    rcases keeps.find? isKept filed with ⟨found, filedAfter, formula_eq⟩
    exact .unsound filedAfter (formula_eq ▸ refused)
  | .unread filed found all => by
    have all := all.transfer keeps (keeps.reference isKept filed found)
    rcases keeps.find? isKept filed with ⟨entry, filedAfter, formula_eq⟩
    exact .unread filedAfter (formula_eq ▸ found) all
  | .evaluated filed found all => by
    have all := all.transfer keeps (keeps.reference isKept filed found)
    rcases keeps.find? isKept filed with ⟨entry, filedAfter, formula_eq⟩
    rw [← formula_eq] at found ⊢
    exact .evaluated filedAfter found all

theorem AllFromScratch.transfer {evaluator : Formula.Evaluator} {kept : Int → Prop}
    {before after : Memory} (keeps : Keeps kept before after) {ids : List Int}
    {outcome : Except Failure (List (Int × Float))} (areKept : ∀ id ∈ ids, kept id) :
    AllFromScratch evaluator before ids outcome → AllFromScratch evaluator after ids outcome
  | .done => .done
  | .failed failed => .failed (failed.transfer keeps (areKept _ List.mem_cons_self))
  | .later value failed =>
    .later (value.transfer keeps (areKept _ List.mem_cons_self))
      (failed.transfer keeps fun id member => areKept id (List.mem_cons_of_mem _ member))
  | .read value values =>
    .read (value.transfer keeps (areKept _ List.mem_cons_self))
      (values.transfer keeps fun id member => areKept id (List.mem_cons_of_mem _ member))

end

/-- Stores with the same formulas everywhere give the same outcomes. -/
theorem Keeps.of_same {before after : Memory}
    (same : ∀ id, (after.table.find? id).map (·.formula) =
      (before.table.find? id).map (·.formula)) :
    Keeps (fun _ => True) before after :=
  ⟨fun id _ => same id, fun _ _ _ _ _ _ _ _ => trivial⟩

variable {evaluator : Formula.Evaluator} {memory before after : Memory} {id : Int}

/-- In a well-linked store, what neither is an identity nor depends on it refers to nothing else. -/
theorem WellLinked.closed_of_independent (linked : WellLinked memory) {origin : Int} :
    ∀ id entry ids, (id ≠ origin ∧ ¬DependsOn memory.linkList id origin) →
      memory.table.find? id = some entry → Formula.references entry.formula = .ok ids →
        ∀ other ∈ ids, other ≠ origin ∧ ¬DependsOn memory.linkList other origin := by
  rintro id entry ids ⟨-, independent⟩ filed found other member
  rcases linked.linked id entry filed with ⟨_, found', mem_ids⟩
  cases found.symm.trans found'
  have linkedTo := (mem_ids other).mpr member
  exact ⟨fun same => independent (same ▸ .of_mem linkedTo),
    fun depends => independent ((DependsOn.of_mem linkedTo).trans depends)⟩

/-! ## Fresh values are values from scratch -/

/-- Every fresh entry has the value that it has from scratch. -/
def Trusted (evaluator : Formula.Evaluator) (memory : Memory) : Prop :=
  ∀ id entry, memory.table.find? id = some entry → entry.stale = false →
    FromScratch evaluator memory id (.ok entry.result)

theorem trusted_empty : Trusted evaluator Memory.empty :=
  fun _ _ filed => nomatch filed

theorem Trusted.allFromScratch (trusted : Trusted evaluator memory) {values : List (Int × Float)}
    (fresh : FreshValues memory values) :
    AllFromScratch evaluator memory (values.map Prod.fst) (.ok values) := by
  induction values with
  | nil => exact .done
  | cons first rest inductionHypothesis =>
    rcases first with ⟨id, value⟩
    rcases fresh id value List.mem_cons_self with ⟨entry, filed, isFresh, rfl⟩
    exact .read (trusted id entry filed isFresh)
      (inductionHypothesis fun other value member =>
        fresh other value (List.mem_cons_of_mem _ member))

/-- The value of a formula does not depend on the identity it must not refer to. -/
theorem recompute_eq_of_dependencies {text : List Char} {self other : Option Int} {ids : IdSet}
    (found : Formula.dependencies text self = .ok ids)
    (foundOther : Formula.dependencies text other = .ok ids) (values : Table Float) :
    recompute evaluator text self values = recompute evaluator text other values := by
  simp only [recompute]
  rw [Formula.resolve_of_ok found, Formula.resolve_of_ok foundOther]

/-- An entry whose formula has been evaluated by fresh values, and whose references keep their
values, has its value from scratch. -/
theorem Trusted.evaluates {kept : Int → Prop} {self : Option Int} {entry : Entry}
    {evaluated : Evaluated} (trusted : Trusted evaluator before) (keeps : Keeps kept before after)
    (evaluates : Evaluates evaluator before entry.formula self evaluated)
    (areKept : ∀ other ∈ evaluated.dependencies, other ≠ id ∧ kept other)
    (filed : after.table.find? id = some entry) (result_eq : entry.result = evaluated.result) :
    FromScratch evaluator after id (.ok entry.result) := by
  have found := evaluates.dependencies
  have foundHere : Formula.dependencies entry.formula (some id) = .ok evaluated.dependencies := by
    rw [Formula.dependencies_eq_ok_iff]
    constructor
    · exact (Formula.dependencies_eq_ok_iff.mp found).1
    · rintro _ ⟨⟩ member
      exact (areKept id member).1 rfl
  rcases evaluates with ⟨values, ids_eq, fresh, recomputed⟩
  have all := (trusted.allFromScratch fresh).transfer keeps (ids_eq ▸ fun other member =>
    (areKept other (IdSet.mem_def.mpr member)).2)
  rw [ids_eq] at all
  have combination := FromScratch.evaluated filed foundHere all
  rw [recompute_eq_of_dependencies foundHere found, recomputed] at combination
  rw [result_eq]
  exact combination

theorem Trusted.renewal (trusted : Trusted evaluator before)
    (renewal : Renewal evaluator id before after) : Trusted evaluator after := by
  have keeps := Keeps.of_same renewal.formula
  obtain @⟨renewed, evaluated, filed, evaluates⟩ := renewal
  intro other entry filedOther fresh
  by_cases same : other = id
  · subst same
    rw [Memory.find?_file_self] at filedOther
    cases filedOther
    have areKept : ∀ id ∈ evaluated.dependencies, id ≠ other ∧ True := by
      intro id member
      constructor
      · intro same
        exact (Formula.dependencies_eq_ok_iff.mp evaluates.dependencies).2 _ rfl (same ▸ member)
      · exact trivial
    exact trusted.evaluates keeps evaluates areKept (Memory.find?_file_self _ _ _) rfl
  · rw [Memory.find?_file_of_ne same] at filedOther
    exact (trusted other entry filedOther fresh).transfer keeps trivial

theorem Trusted.renewals (trusted : Trusted evaluator before)
    (renewals : Renewals evaluator before after) : Trusted evaluator after := by
  induction renewals with
  | refl => exact trusted
  | tail _ _ _ renewal inductionHypothesis => exact inductionHypothesis.renewal renewal

/-- Marking entries leaves the other entries, and all formulas, as they were. -/
theorem Trusted.invalidated {which : Int → Prop} (trusted : Trusted evaluator before)
    (invalidated : Invalidated which before after) : Trusted evaluator after := by
  intro id entry filed fresh
  have unmarked : ¬which id := by
    intro marked
    rw [invalidated.within id marked, Option.map_eq_some_iff] at filed
    rcases filed with ⟨_, -, rfl⟩
    cases fresh
  rw [invalidated.outside id unmarked] at filed
  exact (trusted id entry filed fresh).transfer (Keeps.of_same invalidated.formula) trivial

/-- A change of one entry and its links, with everything marked that depends on it, keeps the
formulas that do not depend on it. -/
theorem WellLinked.keeps {origin : Int} {wanted : Int → Prop} {links : List Link}
    {middle : Memory} (linked : WellLinked before)
    (relinked : Relinked origin wanted before.linkList links)
    (elsewhere : ∀ id, id ≠ origin → middle.table.find? id = before.table.find? id)
    (invalidated : Invalidated (DependsOn links · origin) middle after) :
    Keeps (fun id => id ≠ origin ∧ ¬DependsOn before.linkList id origin) before after ∧
      ∀ id entry, id ≠ origin → after.table.find? id = some entry → entry.stale = false →
        ¬DependsOn before.linkList id origin ∧ before.table.find? id = some entry := by
  refine ⟨⟨fun id isKept => ?_, linked.closed_of_independent⟩,
    fun id entry different filed fresh => ?_⟩
  · rw [invalidated.formula, elsewhere id isKept.1]
  · have independent : ¬DependsOn links id origin := by
      intro depends
      rw [invalidated.within id depends, Option.map_eq_some_iff] at filed
      rcases filed with ⟨_, -, rfl⟩
      cases fresh
    rw [invalidated.outside id independent, elsewhere id different] at filed
    exact ⟨(relinked.dependsOn_origin_iff different).not.mp independent, filed⟩

/-- Every change by an evaluator keeps the fresh values those that it gives from scratch. -/
theorem Trusted.change (trusted : Trusted evaluator before) (consistent : Consistent before)
    (change : Change evaluator before after) : Trusted evaluator after := by
  cases change with
  | unchanged => exact trusted
  | @created raw formula evaluated links canonical evaluates relinked =>
    have find?_eq := fun other => Table.find?_insert before.table (before.lastId + 1) other
      ⟨formula, evaluated.result, false⟩
    have keeps : Keeps (· ≠ before.lastId + 1) before
        ⟨before.table.insert (before.lastId + 1) ⟨formula, evaluated.result, false⟩, links,
          before.lastId + 1⟩ := by
      constructor
      · intro id isKept
        rw [find?_eq, if_neg isKept]
      · intro id entry ids _ filed found other member
        rcases consistent.linked id entry filed with ⟨_, found', mem_ids⟩
        cases found.symm.trans found'
        have := (consistent.linkBounds id other ((mem_ids other).mpr member)).2
        omega
    intro id entry filed fresh
    by_cases same : id = before.lastId + 1
    · have filedAgain := filed
      rw [find?_eq, if_pos same] at filedAgain
      cases filedAgain
      apply trusted.evaluates keeps evaluates _ filed rfl
      intro other member
      rcases evaluates.fresh member with ⟨found, filedOther, -⟩
      have := consistent.rowBounds other (filedOther ▸ nofun)
      omega
    · rw [find?_eq, if_neg same] at filed
      exact (trusted id entry filed fresh).transfer keeps same
  | @rewritten origin old raw formula evaluated links after filedOld canonical evaluates independent
      relinked invalidated =>
    obtain ⟨keeps, unmarked⟩ := consistent.toWellLinked.keeps relinked
      (fun id different => by exact Memory.find?_file_of_ne different) invalidated
    intro id entry filed fresh
    by_cases same : id = origin
    · subst same
      have filedAgain := filed
      rw [invalidated.outside id (relinked.acyclic consistent.acyclic independent id)] at filedAgain
      obtain rfl := Option.some.inj ((Memory.find?_file_self _ _ _).symm.trans filedAgain)
      exact trusted.evaluates keeps evaluates
        (fun other member => ⟨(independent other member).1, independent other member⟩) filed rfl
    · rcases unmarked id entry same filed fresh with ⟨isKept, filedBefore⟩
      exact (trusted id entry filedBefore fresh).transfer keeps ⟨same, isKept⟩
  | @deleted origin old links after filedOld relinked invalidated =>
    obtain ⟨keeps, unmarked⟩ := consistent.toWellLinked.keeps relinked
      (fun id different => (Table.find?_erase _ _ _).trans (if_neg different)) invalidated
    intro id entry filed fresh
    by_cases same : id = origin
    · subst same
      have circular := relinked.acyclic consistent.acyclic (fun _ => False.elim) id
      rw [invalidated.outside id circular, Table.find?_erase, if_pos rfl] at filed
      cases filed
    · rcases unmarked id entry same filed fresh with ⟨isKept, filedBefore⟩
      exact (trusted id entry filedBefore fresh).transfer keeps ⟨same, isKept⟩
  | recalculated renewal => exact trusted.renewal renewal
  | moved renewal invalidated => exact (trusted.renewal renewal).invalidated invalidated

/-- As long as the evaluator stays the same, operations lead from stores whose fresh values are
those from scratch to such stores. -/
theorem Trusted.of_leads {allowed : EngineSettings → Prop} {mayFail : List StoreMethod → Prop}
    (same : ∀ settings, allowed settings → settings.evaluator = evaluator)
    (trusted : Trusted evaluator before) (consistent : Consistent before)
    (leads : Leads allowed mayFail before after) : Trusted evaluator after := by
  induction leads with
  | refl => exact trusted
  | tail first operation settings failing isAllowed _ inductionHypothesis =>
    have consistentMiddle := consistent.of_leads first
    obtain ⟨middle, renewals, change⟩ :=
      run_changes consistentMiddle.acyclic operation settings failing
    rw [same settings isAllowed] at renewals change
    exact (inductionHypothesis.renewals renewals).change (consistentMiddle.renewals renewals) change

end Formulary.Engine
