import Formulary.Formula.Error
import Formulary.Text.Character

/-!
# Reference markers

A formula refers to another calculation by a marker: the digits of its identity between curly
brackets. `segments` cuts a text into its markers, found from left to right, and the characters
between them; `references` collects the identities that the markers name.
-/

namespace Formulary.Formula

/-- A character of a text, or a marker with its digits. -/
inductive Segment where
  | plain (c : Char)
  | marker (digits : List Char)
  deriving DecidableEq

/-- The text of a segment. -/
def Segment.text : Segment → List Char
  | .plain c => [c]
  | .marker digits => '{' :: digits ++ ['}']

/-- The digits of a marker whose opening bracket has just been passed, and the text after it. -/
def splitMarker? (text : List Char) : Option (List Char × List Char) :=
  match text.takeWhile Text.isDecimalDigit, text.dropWhile Text.isDecimalDigit with
  | first :: digits, '}' :: rest => some (first :: digits, rest)
  | _, _ => none

/-- A marker is split off without changing the text. -/
theorem eq_of_splitMarker? {text digits rest : List Char}
    (split : splitMarker? text = some (digits, rest)) :
    text = digits ++ '}' :: rest ∧ digits ≠ [] ∧ digits.all Text.isDecimalDigit = true := by
  have whole := List.takeWhile_append_dropWhile (p := Text.isDecimalDigit) (l := text)
  have digitsOnly : (text.takeWhile Text.isDecimalDigit).all Text.isDecimalDigit = true :=
    List.all_takeWhile
  simp only [splitMarker?] at split
  split at split
  · rename_i first others after taken dropped
    obtain ⟨rfl, rfl⟩ := Prod.mk.inj (Option.some.inj split)
    rw [taken, dropped] at whole
    rw [taken] at digitsOnly
    exact ⟨whole.symm, List.cons_ne_nil _ _, digitsOnly⟩
  · contradiction

/-- A marker leaves less text. -/
theorem length_of_splitMarker? {text digits rest : List Char}
    (split : splitMarker? text = some (digits, rest)) : rest.length < text.length := by
  obtain ⟨rfl, -, -⟩ := eq_of_splitMarker? split
  simp only [List.length_append, List.length_cons]
  omega

/-- The markers of a text, from left to right, with the characters between them. -/
def segments : List Char → List Segment
  | [] => []
  | c :: rest =>
    if c = '{' then
      match _split : splitMarker? rest with
      | some (digits, after) => .marker digits :: segments after
      | none => .plain c :: segments rest
    else
      .plain c :: segments rest
termination_by text => text.length
decreasing_by
  · have := length_of_splitMarker? _split
    simp only [List.length_cons]
    omega
  all_goals simp

/-- The segments of a text, written one after the other, are the text. -/
theorem flatMap_text_segments (text : List Char) : (segments text).flatMap Segment.text = text := by
  fun_induction segments text with
  | case1 => rfl
  | case2 rest digits after split inductionHypothesis =>
    obtain ⟨rfl, -, -⟩ := eq_of_splitMarker? split
    simp [Segment.text, inductionHypothesis]
  | case3 rest none inductionHypothesis => simp [Segment.text, inductionHypothesis]
  | case4 c rest other inductionHypothesis => simp [Segment.text, inductionHypothesis]

/-- The identity that the digits of a marker spell: ASCII digits, within the range of identities. -/
def markerId? (digits : List Char) : Option Int :=
  if digits.all Text.isAsciiDigit && Text.digitsValue digits ≤ largestId then
    some (Text.digitsValue digits)
  else
    none

/-- The identity that a marker names. -/
def markerId (digits : List Char) : Except Fault Int :=
  match markerId? digits with
  | some id => .ok id
  | none => .error (.markerRange digits)

/-- The identities named by the markers among some segments, in their order. -/
def markedIds : List Segment → Except Fault (List Int)
  | [] => .ok []
  | .plain _ :: rest => markedIds rest
  | .marker digits :: rest => do
    let id ← markerId digits
    let others ← markedIds rest
    return id :: others

/-- The set of identities that a text refers to. -/
def references (text : List Char) : Except Fault IdSet :=
  (markedIds (segments text)).map IdSet.ofList

end Formulary.Formula
