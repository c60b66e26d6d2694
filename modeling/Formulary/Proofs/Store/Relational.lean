import Formulary.Proofs.Store.Simulation
import Formulary.Store.Memory
import Formulary.Store.Relational

/-!
# Tables and memory

A store in relational tables simulates a store in memory: the rows of its tables are the entries and
the links, in the same order, and its sequence is the last identity handed out. As far as values are
told apart here, all that the tables hide is the sign of a zero.
-/

namespace Formulary

/-! ## Columns -/

/-- Only the value that is no number counts as no number. -/
theorem eq_nan_of_isNaN {value : Float} (isNaN : value.isNaN = true) : value = Number.nan := by
  rcases Number.ofFloat_cases value with
    ⟨-, same⟩ | ⟨negative, -, rfl⟩ | ⟨negative, significand, exponent, bits, -, scaled, rfl⟩
  · exact same
  · exact nomatch isNaN.symm.trans (Number.isNaN_ofMagnitude negative (Nat.le_refl _))
  · exact nomatch isNaN.symm.trans (Number.isNaN_ofMagnitude negative scaled.bits_le)

/-- A column gives back what was put into it, without the sign of a zero. -/
theorem decodeResult_encodeResult (value : Float) :
    CalculationRow.decodeResult (CalculationRow.encodeResult value) =
      Formula.withoutZeroSign value := by
  rw [CalculationRow.encodeResult, Formula.withoutZeroSign]
  split
  · rename_i isNaN
    rw [eq_nan_of_isNaN isNaN, if_neg (by decide +kernel)]
    rfl
  · split
    · rfl
    · rfl

theorem toEntry_ofEntry (key : Int) (entry : Entry) :
    (CalculationRow.ofEntry key entry).toEntry = entry.mapResult Formula.withoutZeroSign := by
  rw [CalculationRow.toEntry, CalculationRow.ofEntry, decodeResult_encodeResult]
  rfl

theorem withoutZeroSign_withoutZeroSign (value : Float) :
    Formula.withoutZeroSign (Formula.withoutZeroSign value) = Formula.withoutZeroSign value := by
  by_cases isZero : (value == 0) = true
  · rw [Formula.withoutZeroSign, Formula.withoutZeroSign, if_pos isZero]
    decide +kernel
  · rw [Formula.withoutZeroSign, Formula.withoutZeroSign, if_neg isZero, if_neg isZero]

theorem mapResult_withoutZeroSign_idem :
    Entry.mapResult Formula.withoutZeroSign ∘ Entry.mapResult Formula.withoutZeroSign =
      Entry.mapResult Formula.withoutZeroSign := by
  funext entry
  simp only [Function.comp, Entry.mapResult, withoutZeroSign_withoutZeroSign]

theorem encodeResult_withoutZeroSign (value : Float) :
    CalculationRow.encodeResult (Formula.withoutZeroSign value) =
      CalculationRow.encodeResult value := by
  by_cases isZero : (value == 0) = true
  · have isNumber : ¬value.isNaN = true := by
      intro isNaN
      rw [eq_nan_of_isNaN isNaN] at isZero
      exact absurd isZero (by decide +kernel)
    rw [Formula.withoutZeroSign, if_pos isZero, CalculationRow.encodeResult,
      CalculationRow.encodeResult, if_neg isNumber, if_pos isZero]
    decide +kernel
  · rw [Formula.withoutZeroSign, if_neg isZero]

theorem ofEntry_congr {entry other : Entry} (key : Int)
    (same : entry.mapResult Formula.withoutZeroSign = other.mapResult Formula.withoutZeroSign) :
    CalculationRow.ofEntry key entry = CalculationRow.ofEntry key other := by
  obtain ⟨sameFormula, sameValue, sameMark⟩ := Entry.mapResult_eq_iff.mp same
  rw [CalculationRow.ofEntry, CalculationRow.ofEntry, sameFormula, sameMark,
    ← encodeResult_withoutZeroSign, sameValue, encodeResult_withoutZeroSign]

/-! ## Rows -/

/-- The rows of entries that are filed under identities. -/
def rowsOf (entries : List (Int × Entry)) : List CalculationRow :=
  entries.map fun filed => .ofEntry filed.1 filed.2

variable {entries : List (Int × Entry)} {key : Int} {entry : Entry}

theorem rowsOf_cons (key : Int) (entry : Entry) (rest : List (Int × Entry)) :
    rowsOf ((key, entry) :: rest) = .ofEntry key entry :: rowsOf rest :=
  rfl

theorem find?_rowsOf (key : Int) (entries : List (Int × Entry)) :
    (rowsOf entries).find? (·.id == key) = (Table.findIn key entries).map (.ofEntry key) := by
  induction entries with
  | nil => rfl
  | cons filed rest inductionHypothesis =>
    by_cases same : filed.1 = key
    · simp [rowsOf, Table.findIn, CalculationRow.ofEntry, same]
    · simpa [rowsOf, Table.findIn, CalculationRow.ofEntry, same] using inductionHypothesis

theorem any_rowsOf (key : Int) (entries : List (Int × Entry)) :
    ((rowsOf entries).any fun row => row.id == key) = (Table.findIn key entries).isSome := by
  have found : ((rowsOf entries).find? (·.id == key)).isSome = (Table.findIn key entries).isSome := by
    rw [find?_rowsOf, Option.isSome_map]
  rw [← found, List.isSome_find?]

/-- A row under a key after all others stands at the end. -/
theorem insertInto_of_lt (after : ∀ other ∈ entries.map Prod.fst, other < key) :
    Table.insertInto key entry entries = entries ++ [(key, entry)] := by
  induction entries with
  | nil => rfl
  | cons filed rest inductionHypothesis =>
    have below := after filed.1 (List.mem_cons_self ..)
    rw [Table.insertInto, if_neg (by omega), if_neg (by omega),
      inductionHypothesis fun other member => after other (List.mem_cons_of_mem _ member)]
    rfl

/-- A row under a key that is there is put in place of the old one. -/
theorem rowsOf_insertInto_of_mem (ascending : (entries.map Prod.fst).Pairwise (· < ·))
    (present : key ∈ entries.map Prod.fst) :
    rowsOf (Table.insertInto key entry entries) =
      (rowsOf entries).map fun row => if row.id = key then .ofEntry key entry else row := by
  induction entries with
  | nil => cases present
  | cons filed rest inductionHypothesis =>
    rw [List.map_cons, List.pairwise_cons] at ascending
    obtain ⟨first, old⟩ := filed
    by_cases same : first = key
    · subst same
      have others : ∀ row ∈ rowsOf rest,
          (if row.id = first then .ofEntry first entry else row) = row := by
        intro row member
        rcases List.mem_map.mp member with ⟨filed, inRest, rfl⟩
        have above := ascending.1 filed.1 (List.mem_map_of_mem inRest)
        exact if_neg (Int.ne_of_gt above)
      rw [Table.insertInto, if_neg (Int.lt_irrefl _), if_pos rfl, rowsOf_cons, rowsOf_cons,
        List.map_cons, List.map_congr_left others, List.map_id']
      exact congrArg (· :: rowsOf rest) (if_pos rfl).symm
    · have inRest : key ∈ rest.map Prod.fst :=
        (List.mem_cons.mp present).resolve_left (Ne.symm same)
      have above := ascending.1 key inRest
      rw [Table.insertInto, if_neg (Int.not_lt.mpr (Int.le_of_lt above)), if_neg same, rowsOf_cons,
        rowsOf_cons, List.map_cons, inductionHypothesis ascending.2 inRest]
      exact congrArg (· :: _) (if_neg same).symm

theorem rowsOf_filter (key : Int) (entries : List (Int × Entry)) :
    rowsOf (entries.filter (·.1 != key)) = (rowsOf entries).filter (·.id != key) := by
  rw [rowsOf, rowsOf, List.filter_map]
  rfl

theorem findIn_eq_none_iff {key : Int} {entries : List (Int × Entry)} :
    Table.findIn key entries = none ↔ key ∉ entries.map Prod.fst := by
  induction entries with
  | nil => simp [Table.findIn]
  | cons filed rest inductionHypothesis =>
    rw [Table.findIn, List.map_cons, List.mem_cons]
    split
    · rename_i same
      simp [same]
    · rename_i different
      rw [inductionHypothesis]
      simp [Ne.symm different]

/-! ## Links -/

/-- Origins in ascending order, each once, are the same list whichever way they are put in order. -/
theorem ofList_toList_eq_mergeSort {keys : List Int} (unrepeated : keys.Nodup) :
    (IdSet.ofList keys).toList = keys.mergeSort fun first second => first ≤ second := by
  have sorted : (keys.mergeSort fun first second => first ≤ second).Pairwise (· ≤ ·) :=
    (List.pairwise_mergeSort (by simp; omega) (by simp; omega) keys).imp of_decide_eq_true
  have ascending := (IdSet.ofList keys).ascending
  have perm : (IdSet.ofList keys).toList.Perm (keys.mergeSort fun first second => first ≤ second) := by
    refine .trans ?_ (List.mergeSort_perm _ _).symm
    exact (List.perm_ext_iff_of_nodup ascending.nodup unrepeated).mpr fun _ => IdSet.mem_ofList
  refine perm.eq_of_pairwise ?_ (ascending.imp Int.le_of_lt) sorted
  exact fun _ _ _ _ lower upper => Int.le_antisymm lower upper

theorem nodup_origins {links : List Link} (unrepeated : links.Nodup) (key : Int) :
    ((links.filter fun link => link.destination == key).map (·.origin)).Nodup := by
  refine (unrepeated.filter _).map_on ?_
  rintro ⟨origin, destination⟩ member ⟨_, other⟩ memberOther rfl
  have toKey := (List.mem_filter.mp member).2
  have otherToKey := (List.mem_filter.mp memberOther).2
  simp only [beq_iff_eq] at toKey otherToKey
  rw [toKey, otherToKey]

/-! ## Stores -/

/-- Newly made tables. -/
def Relational.empty : Relational :=
  ⟨[], [], 0⟩

/-- Tables are made empty, whatever their names are. -/
theorem Relational.eq_empty_of_create {names : TableNames} {store : Relational}
    (created : Relational.create names = .ok store) : store = .empty := by
  rw [Relational.create] at created
  split at created
  · cases created
  · split at created
    · cases created
    · exact (Except.ok.inj created).symm

/-- The tables hold what the memory holds. No link is held twice, and no identity is above the last
one handed out. -/
structure Tabulates (memory : Memory) (store : Relational) : Prop where
  calculations : store.calculations = rowsOf memory.table.entries
  relations : store.relations = memory.linkList
  sequence : store.sequence = memory.lastId
  unrepeated : memory.linkList.Nodup
  handedOut : ∀ key ∈ memory.table.entries.map Prod.fst, key ≤ memory.lastId

namespace Tabulates

variable {memory : Memory} {store : Relational}

theorem save (entry : Entry) (tabulates : Tabulates memory store) :
    Tabulates (Memory.save entry memory).2 (Relational.save entry store).2 where
  calculations := by
    have above : ∀ other ∈ memory.table.entries.map Prod.fst, other < memory.lastId + 1 :=
      fun other member => Int.lt_add_one_iff.mpr (tabulates.handedOut other member)
    simp only [Memory.save, Relational.save, Table.insert, insertInto_of_lt above,
      tabulates.calculations, tabulates.sequence, rowsOf, List.map_append]
    rfl
  relations := tabulates.relations
  sequence := congrArg (· + 1) tabulates.sequence
  unrepeated := tabulates.unrepeated
  handedOut key member := by
    rcases Table.mem_ids_insertInto.mp member with rfl | old
    · exact Int.le_refl _
    · exact Int.le_of_lt (Int.lt_add_one_iff.mpr (tabulates.handedOut key old))

theorem fetch_eq (tabulates : Tabulates memory store) (key : Int) :
    Relational.fetch store key =
      (Memory.fetch memory key).map (Option.map (Entry.mapResult Formula.withoutZeroSign)) := by
  rw [Relational.fetch, tabulates.calculations, find?_rowsOf, Option.map_map]
  exact congrArg (fun view => Except.ok (Option.map view _)) (funext (toEntry_ofEntry key))

theorem replace {calculation other : Calculation}
    (same : calculation.mapResult Formula.withoutZeroSign =
      other.mapResult Formula.withoutZeroSign) (tabulates : Tabulates memory store) :
    Agree Tabulates id (Memory.replace calculation memory) (Relational.replace other store) := by
  have sameId : calculation.id = other.id := congrArg (·.id) same
  rw [Memory.replace, Relational.replace, sameId]
  cases other.id with
  | none => exact ⟨rfl, tabulates⟩
  | some key =>
    have present_eq : (store.calculations.any fun row => row.id == key) =
        (memory.table.find? key).isSome := by
      rw [tabulates.calculations]
      exact any_rowsOf key memory.table.entries
    simp only [present_eq]
    cases filed : memory.table.find? key with
    | none => exact ⟨rfl, tabulates⟩
    | some old =>
      have present : key ∈ memory.table.entries.map Prod.fst := by
        by_contra absent
        exact nomatch filed.symm.trans (findIn_eq_none_iff.mpr absent)
      have sameRow := ofEntry_congr key (congrArg Calculation.toEntry same)
      simp only [Option.isSome_some, if_true]
      refine ⟨rfl, ?_, tabulates.relations, tabulates.sequence, tabulates.unrepeated, ?_⟩
      · rw [tabulates.calculations, ← sameRow]
        exact (rowsOf_insertInto_of_mem memory.table.ascending present).symm
      · intro other member
        rcases Table.mem_ids_insertInto.mp member with rfl | was
        · exact tabulates.handedOut other present
        · exact tabulates.handedOut other was

theorem remove (key : Int) (tabulates : Tabulates memory store) :
    Tabulates (Memory.remove key memory).2 (Relational.remove key store).2 where
  calculations := by
    simp only [Memory.remove, Relational.remove, Table.erase, rowsOf_filter,
      tabulates.calculations]
  relations := tabulates.relations
  sequence := tabulates.sequence
  unrepeated := tabulates.unrepeated
  handedOut other member :=
    tabulates.handedOut other ((List.filter_sublist.map Prod.fst).subset member)

theorem link (added : Link) (tabulates : Tabulates memory store) :
    Agree Tabulates id (Memory.link added memory) (Relational.link added store) := by
  rw [Memory.link, Relational.link]
  by_cases present : added ∈ memory.linkList
  · rw [if_pos present, if_pos (by rw [tabulates.relations]; exact List.contains_iff_mem.mpr present)]
    exact ⟨rfl, tabulates⟩
  · rw [if_neg present, if_neg (by rw [tabulates.relations]; exact mt List.contains_iff_mem.mp present)]
    refine ⟨rfl, tabulates.calculations, ?_, tabulates.sequence, ?_, tabulates.handedOut⟩
    · exact congrArg (· ++ [added]) tabulates.relations
    · exact List.nodup_append.mpr ⟨tabulates.unrepeated, List.nodup_singleton added, by
        rintro link member _ isAdded rfl
        exact present (List.mem_singleton.mp isAdded ▸ member)⟩

theorem unlink (origin : Int) (tabulates : Tabulates memory store) :
    Tabulates (Memory.unlink origin memory).2 (Relational.unlink origin store).2 where
  calculations := tabulates.calculations
  relations := congrArg (List.filter _) tabulates.relations
  sequence := tabulates.sequence
  unrepeated := tabulates.unrepeated.filter _
  handedOut := tabulates.handedOut

theorem dependents_eq (tabulates : Tabulates memory store) (key : Int) :
    Memory.dependents memory key = Relational.dependents store key := by
  rw [Memory.dependents, Relational.dependents, tabulates.relations]
  exact congrArg Except.ok (ofList_toList_eq_mergeSort (nodup_origins tabulates.unrepeated key))

theorem rows_eq (tabulates : Tabulates memory store) :
    Store.rows store = (Store.rows memory).map (Prod.map id (Entry.mapResult Formula.withoutZeroSign)) := by
  have shown : store.calculations.map (fun row => (row.id, row.toEntry)) =
      memory.table.entries.map (Prod.map id (Entry.mapResult Formula.withoutZeroSign)) := by
    rw [tabulates.calculations, rowsOf, List.map_map]
    exact List.map_congr_left fun filed _ => Prod.ext rfl (toEntry_ofEntry filed.1 filed.2)
  show List.mergeSort (store.calculations.map _) _ = _
  rw [shown]
  apply List.mergeSort_of_pairwise
  have ascending := memory.table.ascending
  rw [List.pairwise_map] at ascending ⊢
  exact ascending.imp fun below => decide_eq_true (Int.le_of_lt below)

end Tabulates

theorem tabulates_empty : Tabulates Memory.empty Relational.empty where
  calculations := rfl
  relations := rfl
  sequence := rfl
  unrepeated := List.nodup_nil
  handedOut := nofun

/-- A store in memory and one in tables do the same, apart from the sign of a zero. -/
def tabulation : StoreSimulation Memory Relational where
  related := Tabulates
  view := Formula.withoutZeroSign
  withoutZeroSign_view := withoutZeroSign_withoutZeroSign
  save entry _ _ tabulates :=
    ⟨congrArg (fun last => Except.ok (last + 1)) tabulates.sequence.symm, tabulates.save entry⟩
  fetch key := .inspect fun memory store tabulates => by
    show (Memory.fetch memory key).map _ = (Relational.fetch store key).map _
    rw [tabulates.fetch_eq, Memory.fetch]
    simp only [Except.map, Option.map_map]
    rw [mapResult_withoutZeroSign_idem]
  replace _ _ same _ _ tabulates := tabulates.replace same
  remove key _ _ tabulates := ⟨rfl, tabulates.remove key⟩
  link added _ _ tabulates := tabulates.link added
  unlink origin _ _ tabulates := ⟨rfl, tabulates.unlink origin⟩
  dependents tabulates key := tabulates.dependents_eq key
  rows tabulates := by
    rw [tabulates.rows_eq, List.map_map, Prod.map_comp_map, mapResult_withoutZeroSign_idem]
    rfl
  links tabulates := congrArg (List.mergeSort · Link.before) tabulates.relations.symm

end Formulary
