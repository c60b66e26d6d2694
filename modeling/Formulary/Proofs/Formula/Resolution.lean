import Formulary.Proofs.Formula.Curly
import Formulary.Proofs.Formula.Evaluability

/-!
# What resolving a text does

Resolving replaces all markers of a text at once. It asks for no value before the markers are known
to be sound; then it asks for the value of every identity once, in ascending order, up to the first
error. The main statement is `resolve_substitutes`.
-/

namespace Formulary.Formula

open Text

variable {σ ε : Type} {ofFault : Fault → ε} {fetch : Int → Action σ ε Float}
  {valueOf : Int → Float} {text : List Char} {marked : List Segment} {self : Option Int}
  {ids : IdSet}

/-! ## The text that is written -/

/-- A value as it is written into a formula: either zero as `0`, and what is below zero in round
brackets. -/
def literalText (value : Float) : List Char :=
  if value == 0 then ['0']
  else if value < 0 then '(' :: Number.plainText value ++ [')']
  else Number.plainText value

theorem valueText_eq (value : Float) : valueText value = literalText value := by
  rcases Number.ofFloat_cases value with
    ⟨parts, rfl⟩ | ⟨negative, parts, rfl⟩ |
    ⟨negative, significand, exponent, bits, parts, scaled, rfl⟩
  · have notZero : ¬(Number.nan == 0) = true := by decide +kernel
    have notBelow : ¬Number.nan < 0 := by decide +kernel
    rw [literalText, if_neg notZero, if_neg notBelow]
    simp only [valueText, parts]
  · have nonzero : Number.infinityBits ≠ 0 := by decide
    have notZero : ¬(Number.infinity negative == 0) = true :=
      mt (Number.beq_zero_ofMagnitude negative (Nat.le_refl _)).mp nonzero
    have isBelow : Number.infinity negative < 0 ↔ negative = true :=
      (Number.lt_zero_ofMagnitude negative (Nat.le_refl _)).trans (and_iff_right nonzero)
    rw [literalText, if_neg notZero]
    cases negative <;> simp [isBelow, valueText, parts]
  · have isZero := Number.beq_zero_ofMagnitude negative scaled.bits_le
    have isBelow := Number.lt_zero_ofMagnitude negative scaled.bits_le
    rw [scaled.bits_eq_zero_iff] at isZero
    rw [ne_eq, scaled.bits_eq_zero_iff] at isBelow
    by_cases zero : significand = 0
    · rw [literalText, if_pos (isZero.mpr zero)]
      simp only [valueText, parts, zero]
    · rw [literalText, if_neg (mt isZero.mp zero)]
      cases negative <;> simp [isBelow, zero, valueText, parts]

/-- The segments of a text with the values of their identities in place of the markers. -/
def replaced (valueOf : Int → Float) (marked : List Segment) : List Char :=
  marked.flatMap fun
    | .plain c => [c]
    | .marker digits => literalText (valueOf (digitsValue digits))

theorem substitute_eq_replaced {given : Int → Option Float}
    (spelled : ∀ digits, .marker digits ∈ marked → SpellsId digits)
    (valued : ∀ digits, .marker digits ∈ marked →
      given (digitsValue digits) = some (valueOf (digitsValue digits))) :
    substitute given marked = replaced valueOf marked := by
  refine List.flatMap_congr fun segment member => ?_
  cases segment with
  | plain c => rfl
  | marker digits =>
    have named := markerId?_eq_some_iff.mpr ⟨spelled digits member, rfl⟩
    simp only [named, Option.bind_some, valued digits member, valueText_eq]

/-- Where curly brackets stand around markers alone, none is left. -/
theorem MarkersWhole.curlyless_replaced (whole : MarkersWhole text) :
    Curlyless (replaced valueOf (segments text)) := by
  intro c member
  rcases List.mem_flatMap.mp member with ⟨segment, isSegment, inSegment⟩
  cases segment with
  | plain other =>
    obtain rfl := List.mem_singleton.mp inSegment
    exact whole.plain c isSegment
  | marker digits =>
    change c ∈ literalText _ at inSegment
    rw [← valueText_eq] at inSegment
    exact curlyless_valueText _ c inSegment

/-! ## The values that are asked for -/

/-- Values have been asked for one after the other. Each asking has answered the value of its
identity, and the last of them has left the second state. -/
inductive FetchedInTurn (fetch : Int → Action σ ε Float) (valueOf : Int → Float) :
    σ → List Int → σ → Prop where
  | done (state : σ) : FetchedInTurn fetch valueOf state [] state
  | next {state middle final : σ} {id : Int} {rest : List Int} :
      fetch id state = (.ok (valueOf id), middle) → FetchedInTurn fetch valueOf middle rest final →
        FetchedInTurn fetch valueOf state (id :: rest) final

theorem FetchedInTurn.congr {otherOf : Int → Float} {state final : σ} {ids : List Int}
    (inTurn : FetchedInTurn fetch valueOf state ids final)
    (same : ∀ id ∈ ids, otherOf id = valueOf id) :
    FetchedInTurn fetch otherOf state ids final := by
  induction inTurn with
  | done => exact .done _
  | @next _ _ _ id _ fetched _ inductionHypothesis =>
    rw [← same id List.mem_cons_self] at fetched
    exact .next fetched (inductionHypothesis fun other member =>
      same other (List.mem_cons_of_mem id member))

/-- Asking for distinct identities answers the values of all of them, or it ends with the first
error. -/
theorem fetchAll_cases (fetch : Int → Action σ ε Float) (state : σ) {ids : List Int}
    (distinct : ids.Nodup) :
    ∃ valueOf,
      (∃ final, FetchedInTurn fetch valueOf state ids final ∧
        fetchAll fetch ids state = (.ok (ids.map fun id => (id, valueOf id)), final)) ∨
      ∃ before id after middle error final, ids = before ++ id :: after ∧
        FetchedInTurn fetch valueOf state before middle ∧
          fetch id middle = (.error error, final) ∧
            fetchAll fetch ids state = (.error error, final) := by
  induction ids generalizing state with
  | nil => exact ⟨fun _ => 0, .inl ⟨state, .done state, rfl⟩⟩
  | cons id rest inductionHypothesis =>
    rw [List.nodup_cons] at distinct
    match fetched : fetch id state with
    | (.error error, final) =>
      refine ⟨fun _ => 0, .inr ⟨[], id, rest, state, error, final, rfl, .done state, fetched, ?_⟩⟩
      rw [fetchAll, Action.bind_of_error fetched]
    | (.ok value, middle) =>
      rcases inductionHypothesis middle distinct.2 with ⟨valueOf, outcome⟩
      -- The identities that are left do not include this one, so it can be given its value.
      obtain ⟨extended, own, others⟩ : ∃ extended : Int → Float,
          extended id = value ∧ ∀ other ∈ rest, extended other = valueOf other := by
        refine ⟨Function.update valueOf id value, Function.update_self id value valueOf, ?_⟩
        intro other member
        refine Function.update_of_ne ?_ value valueOf
        rintro rfl
        exact distinct.1 member
      have first : fetch id state = (.ok (extended id), middle) := by rw [fetched, own]
      refine ⟨extended, outcome.imp ?_ ?_⟩
      · rintro ⟨final, inTurn, run⟩
        refine ⟨final, .next first (inTurn.congr others), ?_⟩
        have pairs : (rest.map fun other => (other, valueOf other)) =
            rest.map fun other => (other, extended other) :=
          List.map_congr_left fun other member => by rw [others other member]
        rw [fetchAll, Action.bind_of_ok first, Action.bind_of_ok run, pairs]
        rfl
      · rintro ⟨before, other, after, last, error, final, rfl, inTurn, failed, run⟩
        refine ⟨id :: before, other, after, last, error, final, rfl, .next first ?_, failed, ?_⟩
        · exact inTurn.congr fun next member => others next (List.mem_append_left _ member)
        · rw [fetchAll, Action.bind_of_ok first, Action.bind_of_error run]

/-! ## What resolving answers -/

/-- The first marker that spells no identity has these digits. -/
def FirstMisspelled (marked : List Segment) (digits : List Char) : Prop :=
  ∃ before after, marked = before ++ .marker digits :: after ∧
    (∀ other, .marker other ∈ before → SpellsId other) ∧ ¬SpellsId digits

/-- Resolving a text fails, whatever the values would be, before any of them has been asked for. -/
def FailsUnasked (σ : Type) (ofFault : Fault → ε) (text : List Char) (self : Option Int)
    (fault : Fault) : Prop :=
  ∀ (fetch : Int → Action σ ε Float) (state : σ),
    resolve ofFault text self fetch state = (.error (ofFault fault), state)

/-- Resolving a text asks for the values of these identities one after the other. They are written
in place of the markers if all of them are answered, and otherwise the first error is the outcome. -/
def AsksInTurn (σ : Type) (ofFault : Fault → ε) (text : List Char) (self : Option Int)
    (marked : List Segment) (ids : IdSet) : Prop :=
  ∀ (fetch : Int → Action σ ε Float) (state : σ), ∃ valueOf,
    (∃ final, FetchedInTurn fetch valueOf state ids.toList final ∧
      resolve ofFault text self fetch state = (.ok ⟨replaced valueOf marked, ids⟩, final)) ∨
    ∃ before id after middle error final, ids.toList = before ++ id :: after ∧
      FetchedInTurn fetch valueOf state before middle ∧
        fetch id middle = (.error error, final) ∧
          resolve ofFault text self fetch state = (.error error, final)

/-- What resolving does if every marker spells an identity, and these are the identities: it fails if
the text's own is among them, and otherwise it asks for their values in ascending order. -/
structure ResolvesSpelled (σ : Type) (ofFault : Fault → ε) (text : List Char) (own : Option Int)
    (marked : List Segment) (ids : IdSet) : Prop where
  references : references text = .ok ids
  ascending : ids.toList.Pairwise (· < ·)
  mem_iff : ∀ id, id ∈ ids ↔ ∃ digits, .marker digits ∈ marked ∧ id = digitsValue digits
  ownReference : ∀ id ∈ own, id ∈ ids → FailsUnasked σ ofFault text own (.selfReference id)
  inTurn : (∀ id ∈ own, id ∉ ids) → AsksInTurn σ ofFault text own marked ids

/-- What resolving a text does: it goes by the markers that are found from left to right, fails by the
first that spells no identity, and leaves no curly bracket in an accepted text whose markers are not
spaced. -/
structure Substitutes (σ : Type) (ofFault : Fault → ε) (text : List Char) (own : Option Int)
    (marked : List Segment) : Prop where
  scanned : ∀ other, Scanned text other ↔ other = marked
  misspelled : (∃ digits, .marker digits ∈ marked ∧ ¬SpellsId digits) →
    ∃ digits, FirstMisspelled marked digits ∧
      FailsUnasked σ ofFault text own (.markerRange digits)
  spelled : (∀ digits, .marker digits ∈ marked → SpellsId digits) →
    ∃ ids, ResolvesSpelled σ ofFault text own marked ids
  curlyless : (∃ raw, canonical raw = .ok text) ∨
      ((∃ accepted, canonical text = .ok accepted) ∧ MarkersUnspaced text) →
    ∀ (fetch : Int → Action σ ε Float) (state final : σ) (resolved : Resolved),
      resolve ofFault text own fetch state = (.ok resolved, final) → Curlyless resolved.text

/-- Where a marker spells no identity, the references of the text fail by the first such marker. -/
theorem references_of_misspelled
    (misspelled : ∃ digits, .marker digits ∈ segments text ∧ ¬SpellsId digits) :
    ∃ digits, FirstMisspelled (segments text) digits ∧
      references text = .error (.markerRange digits) := by
  rcases misspelled with ⟨other, isMarker, bad⟩
  cases collected : markedIds (segments text) with
  | ok listed =>
    rcases exists_markedIds_iff.mp ⟨listed, collected⟩ other isMarker with ⟨id, names⟩
    exact absurd (markerId?_eq_some_iff.mp names).1 bad
  | error fault =>
    rcases markedIds_eq_error collected with
      ⟨before, digits, after, marked_eq, spelled, first, rfl⟩
    refine ⟨digits, ⟨before, after, marked_eq, spelled, first⟩, ?_⟩
    rw [references, collected]
    rfl

/-- Where every marker spells an identity, the references of the text are these. -/
theorem exists_references (spelled : ∀ digits, .marker digits ∈ segments text → SpellsId digits) :
    ∃ ids, references text = .ok ids ∧
      ∀ id, id ∈ ids ↔ ∃ digits, .marker digits ∈ segments text ∧ id = digitsValue digits := by
  obtain ⟨listed, collected⟩ := exists_markedIds_iff.mpr fun digits member =>
    ⟨_, markerId?_eq_some_iff.mpr ⟨spelled digits member, rfl⟩⟩
  have found := references_eq_ok_iff.mpr ⟨listed, collected, rfl⟩
  refine ⟨_, found, fun id => (mem_references_iff found).trans ?_⟩
  constructor
  · rintro ⟨digits, member, names⟩
    exact ⟨digits, member, (markerId?_eq_some_iff.mp names).2⟩
  · rintro ⟨digits, member, id_eq⟩
    exact ⟨digits, member, markerId?_eq_some_iff.mpr ⟨spelled digits member, id_eq⟩⟩

theorem dependencies_of_mem {id : Int} (found : references text = .ok ids) (member : id ∈ ids) :
    dependencies text (some id) = .error (.selfReference id) := by
  rw [dependencies, found]
  exact if_pos member

/-- A text with sound markers is resolved by asking for its values in turn. -/
theorem asksInTurn (ofFault : Fault → ε) (found : dependencies text self = .ok ids) :
    AsksInTurn σ ofFault text self (segments text) ids := by
  intro fetch state
  have references_eq := (dependencies_eq_ok_iff.mp found).1
  rcases references_eq_ok_iff.mp references_eq with ⟨listed, collected, -⟩
  have named := exists_markedIds_iff.mp ⟨listed, collected⟩
  have distinct : ids.toList.Nodup := ids.ascending.imp fun below => Int.ne_of_lt below
  rcases fetchAll_cases fetch state distinct with ⟨valueOf, outcome⟩
  refine ⟨valueOf, outcome.imp ?_ ?_⟩
  · rintro ⟨final, inTurn, run⟩
    have written : substitute (Table.ofList (ids.toList.map fun id => (id, valueOf id))).find?
        (segments text) = replaced valueOf (segments text) := by
      apply substitute_eq_replaced
      · intro digits member
        rcases named digits member with ⟨id, names⟩
        exact (markerId?_eq_some_iff.mp names).1
      · intro digits member
        rcases named digits member with ⟨id, names⟩
        obtain ⟨-, rfl⟩ := markerId?_eq_some_iff.mp names
        have isMember := (mem_references_iff references_eq).mpr ⟨digits, member, names⟩
        rw [Table.find?_ofList_map, if_pos (IdSet.mem_def.mp isMember)]
    refine ⟨final, inTurn, ?_⟩
    rw [resolve_of_ok found, Action.bind_of_ok run, written]
    rfl
  · rintro ⟨before, id, after, middle, error, final, ids_eq, inTurn, failed, run⟩
    refine ⟨before, id, after, middle, error, final, ids_eq, inTurn, failed, ?_⟩
    rw [resolve_of_ok found, Action.bind_of_error run]

theorem exists_replaced_of_resolve {state final : σ} {resolved : Resolved}
    (run : resolve ofFault text self fetch state = (.ok resolved, final)) :
    ∃ valueOf, resolved.text = replaced valueOf (segments text) := by
  cases found : dependencies text self with
  | error fault =>
    cases (resolve_of_error found fetch state).symm.trans run
  | ok ids =>
    rcases asksInTurn ofFault found fetch state with
      ⟨valueOf, ⟨_, -, ran⟩ | ⟨_, _, _, _, _, _, -, -, -, ran⟩⟩
    · cases ran.symm.trans run
      exact ⟨valueOf, rfl⟩
    · cases ran.symm.trans run

/-- Resolving fails, before any value has been asked for, by the first marker that spells no identity,
and otherwise if the text refers to itself. Otherwise it asks for the values of the identities that
are marked, in ascending order and each once, up to the first error; and if there is none it answers
the text with every marker replaced, and the identities. In an accepted text whose markers are not
spaced no curly bracket is left. -/
theorem resolve_substitutes (ofFault : Fault → ε) (text : List Char) (self : Option Int) :
    ∃ marked, Substitutes σ ofFault text self marked := by
  refine ⟨segments text, fun _ => scanned_iff, ?misspelled, ?spelled, ?curlyless⟩
  case misspelled =>
    intro misspelled
    rcases references_of_misspelled misspelled with ⟨digits, first, failed⟩
    have found : dependencies text self = .error (.markerRange digits) := by
      rw [dependencies, failed]
      rfl
    exact ⟨digits, first, resolve_of_error found⟩
  case spelled =>
    intro spelled
    rcases exists_references spelled with ⟨ids, found, mem_ids⟩
    refine ⟨ids, found, ids.ascending, mem_ids, ?ownReference, ?inTurn⟩
    case ownReference =>
      rintro id ⟨⟩ member
      exact resolve_of_error (dependencies_of_mem found member)
    case inTurn =>
      intro foreign
      exact asksInTurn ofFault (dependencies_eq_ok_iff.mpr ⟨found, foreign⟩)
  case curlyless =>
    intro accepted fetch state final resolved run
    have whole : MarkersWhole text := by
      rcases accepted with ⟨raw, spelled⟩ | ⟨⟨_, spelled⟩, unspaced⟩
      · rcases canonical_eq_ok_iff.mp spelled with ⟨rfl, isAccepted⟩
        have again := canonical_eq_ok_iff.mpr ⟨(canonicalText_canonicalText raw).symm, isAccepted⟩
        exact markersWhole_of_canonical again (markersUnspaced_of_canonical spelled)
      · exact markersWhole_of_canonical spelled unspaced
    rcases exists_replaced_of_resolve run with ⟨valueOf, text_eq⟩
    rw [text_eq]
    exact whole.curlyless_replaced

/-- Blank characters inside a marker are left out when a text is accepted, but the text itself has no
marker there. -/
theorem spaced_marker_not_replaced :
    canonical "\x7b 1 \x7d".toList = .ok "\x7b1\x7d".toList ∧
      ((resolve id "\x7b 1 \x7d".toList none fun _ => pure 5) ()).1.map (·.text) =
        .ok "\x7b 1 \x7d".toList := by
  decide +kernel

end Formulary.Formula
