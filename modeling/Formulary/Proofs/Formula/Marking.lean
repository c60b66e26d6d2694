import Formulary.Formula.Marker

/-!
# The markers of a text

A text is cut from left to right. Wherever a marker begins it is taken out whole, and where none
begins the next character stands for itself. The main statement, `scanned_iff`, says that `segments`
cuts a text in this way, and that there is no other.
-/

namespace Formulary.Formula

open Text

variable {text digits rest : List Char} {marked : List Segment} {c : Char}

/-- A marker with these digits begins the text, and this is what comes after it. -/
structure BeginsWithMarker (text digits rest : List Char) : Prop where
  text_eq : text = '{' :: (digits ++ '}' :: rest)
  nonempty : digits ≠ []
  decimal : ∀ c ∈ digits, isDecimalDigit c = true

/-- The text has been cut from left to right: a marker wherever one begins, and a character wherever
none does. -/
inductive Scanned : List Char → List Segment → Prop where
  | done : Scanned [] []
  | marker {text digits rest : List Char} {marked : List Segment} :
      BeginsWithMarker text digits rest → Scanned rest marked →
        Scanned text (.marker digits :: marked)
  | plain {c : Char} {rest : List Char} {marked : List Segment} :
      (∀ digits after, ¬BeginsWithMarker (c :: rest) digits after) → Scanned rest marked →
        Scanned (c :: rest) (.plain c :: marked)

theorem splitMarker?_append (nonempty : digits ≠ [])
    (decimal : ∀ c ∈ digits, isDecimalDigit c = true) (after : List Char) :
    splitMarker? (digits ++ '}' :: after) = some (digits, after) := by
  have closing : isDecimalDigit '}' = false := by decide
  rcases List.exists_cons_of_ne_nil nonempty with ⟨first, rest, rfl⟩
  rw [splitMarker?, List.takeWhile_append_of_pos decimal, List.dropWhile_append_of_pos decimal]
  simp [closing]

theorem splitMarker?_eq_some_iff {after : List Char} :
    splitMarker? rest = some (digits, after) ↔ BeginsWithMarker ('{' :: rest) digits after := by
  constructor
  · intro split
    rcases eq_of_splitMarker? split with ⟨rfl, nonempty, decimal⟩
    exact ⟨rfl, nonempty, List.all_eq_true.mp decimal⟩
  · rintro ⟨same, nonempty, decimal⟩
    cases same
    exact splitMarker?_append nonempty decimal after

/-- A marker at the beginning is the first segment. -/
theorem BeginsWithMarker.segments_eq (begins : BeginsWithMarker text digits rest) :
    segments text = .marker digits :: segments rest := by
  obtain rfl := begins.text_eq
  have isSplit := splitMarker?_eq_some_iff.mpr begins
  rw [segments, if_pos rfl]
  split
  · rename_i split
    cases isSplit.symm.trans split
    rfl
  · rename_i split
    cases isSplit.symm.trans split

/-- A marker that begins a text begins every longer text. -/
theorem BeginsWithMarker.append (begins : BeginsWithMarker text digits rest) (after : List Char) :
    BeginsWithMarker (text ++ after) digits (rest ++ after) where
  text_eq := by simp [begins.text_eq]
  nonempty := begins.nonempty
  decimal := begins.decimal

theorem beginsWithMarker_of_ascii (nonempty : digits ≠ [])
    (ascii : ∀ c ∈ digits, isAsciiDigit c = true) (after : List Char) :
    BeginsWithMarker ('{' :: (digits ++ '}' :: after)) digits after :=
  ⟨rfl, nonempty, fun c member => isDecimalDigit_of_isAsciiDigit (ascii c member)⟩

/-- Where no marker begins, the first character is the first segment. -/
theorem segments_of_not_beginsWithMarker
    (none : ∀ digits after, ¬BeginsWithMarker (c :: rest) digits after) :
    segments (c :: rest) = .plain c :: segments rest := by
  rw [segments]
  split
  · rename_i opening
    subst opening
    split
    · rename_i split
      exact absurd (splitMarker?_eq_some_iff.mp split) (none _ _)
    · rfl
  · rfl

/-- A text is cut in one way, and its segments are what it is cut into. -/
theorem scanned_iff : Scanned text marked ↔ marked = segments text := by
  constructor
  · intro scanned
    induction scanned with
    | done => rw [segments]
    | marker begins _ inductionHypothesis => rw [begins.segments_eq, inductionHypothesis]
    | plain none _ inductionHypothesis =>
      rw [segments_of_not_beginsWithMarker none, inductionHypothesis]
  · rintro rfl
    fun_induction segments text with
    | case1 => exact .done
    | case2 rest digits after split inductionHypothesis =>
      exact .marker (splitMarker?_eq_some_iff.mp split) inductionHypothesis
    | case3 rest split inductionHypothesis =>
      refine .plain (fun digits after begins => ?_) inductionHypothesis
      cases split.symm.trans (splitMarker?_eq_some_iff.mpr begins)
    | case4 c rest other inductionHypothesis =>
      exact .plain (fun _ _ begins => other (List.cons.inj begins.text_eq).1) inductionHypothesis

/-! ## The identity of a marker -/

/-- The digits of a marker spell an identity: they are ASCII digits, and the number is in range. -/
def SpellsId (digits : List Char) : Prop :=
  (∀ c ∈ digits, isAsciiDigit c = true) ∧ (digitsValue digits : Int) ≤ largestId

theorem markerId?_eq_some_iff {id : Int} :
    markerId? digits = some id ↔ SpellsId digits ∧ id = digitsValue digits := by
  rw [markerId?, Option.ite_none_right_eq_some, Bool.and_eq_true, List.all_eq_true,
    decide_eq_true_iff, Option.some.injEq, eq_comm (a := id), SpellsId]

theorem markerId?_eq_none_iff : markerId? digits = none ↔ ¬SpellsId digits := by
  rw [Option.eq_none_iff_forall_ne_some, ← not_exists]
  simp only [markerId?_eq_some_iff, exists_and_left, exists_eq, and_true]

end Formulary.Formula
