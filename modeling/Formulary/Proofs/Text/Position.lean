import Formulary.Text.Offset

/-!
# Positions in a text

Positions count the bytes of the UTF-8 form. A text stands at a position within another if the part
before it has that many bytes. A position is a boundary if it falls between two characters or at an
end, and a text can be sliced at two boundaries in order, and nowhere else (`isSome_slice?_iff`).
-/

namespace Formulary.Text

variable {text left right left' right' part : List Char} {offset start stop : Nat} {c d : Char}

/-! ## Parts of equal length -/

/-- Of two ways to divide a text, the one that divides it earlier leaves more behind. -/
theorem exists_of_append_eq_append (same : left ++ right = left' ++ right')
    (shorter : byteLength left ≤ byteLength left') :
    ∃ between, left' = left ++ between ∧ right = between ++ right' := by
  rcases List.append_eq_append_iff.mp same with found | ⟨between, left_eq, right_eq⟩
  · exact found
  · have nothing : between = [] := by
      apply byteLength_eq_zero
      rw [left_eq, byteLength_append] at shorter
      omega
    rw [nothing, List.append_nil] at left_eq
    rw [nothing, List.nil_append] at right_eq
    exact ⟨[], by rw [left_eq, List.append_nil], by rw [right_eq, List.nil_append]⟩

theorem append_inj_of_byteLength (same : left ++ right = left' ++ right')
    (equal : byteLength left = byteLength left') : left = left' ∧ right = right' := by
  rcases exists_of_append_eq_append same (Nat.le_of_eq equal) with ⟨between, rfl, rfl⟩
  have nothing : between = [] := by
    apply byteLength_eq_zero
    rw [byteLength_append] at equal
    omega
  rw [nothing, List.append_nil]
  exact ⟨rfl, rfl⟩

/-! ## Occurrences -/

/-- A text stands at a position within another one. -/
def OccursAt (text : List Char) (offset : Nat) (part : List Char) : Prop :=
  ∃ left right, text = left ++ (part ++ right) ∧ byteLength left = offset

theorem occursAt_append (left part right : List Char) :
    OccursAt (left ++ (part ++ right)) (byteLength left) part :=
  ⟨left, right, rfl, rfl⟩

theorem OccursAt.head (occurs : OccursAt text offset (c :: part)) : OccursAt text offset [c] := by
  rcases occurs with ⟨left, right, rfl, rfl⟩
  exact ⟨left, part ++ right, rfl, rfl⟩

/-- No two characters stand at one position. -/
theorem OccursAt.eq (first : OccursAt text offset [c]) (second : OccursAt text offset [d]) :
    c = d := by
  rcases first with ⟨left, right, rfl, rfl⟩
  rcases second with ⟨left', right', same, equal⟩
  cases (append_inj_of_byteLength same equal.symm).2
  rfl

/-! ## Boundaries -/

/-- A position is one at which the string can be divided. -/
def IsBoundary (text : List Char) (offset : Nat) : Prop :=
  String.Pos.Raw.IsValid (String.ofList text) ⟨offset⟩

theorem utf8ByteSize_ofList (text : List Char) :
    (String.ofList text).utf8ByteSize = byteLength text := by
  induction text with
  | nil => rfl
  | cons c rest inductionHypothesis =>
    rw [String.utf8ByteSize, String.toByteArray_ofList] at inductionHypothesis ⊢
    rw [List.utf8Encode_cons, ByteArray.size_append, inductionHypothesis, List.utf8Encode_singleton,
      List.size_toByteArray, String.length_utf8EncodeChar, byteLength_cons]

theorem isBoundary_iff :
    IsBoundary text offset ↔ ∃ left right, text = left ++ right ∧ byteLength left = offset := by
  rw [IsBoundary, String.Pos.Raw.isValid_iff_exists_append]
  constructor
  · rintro ⟨first, second, same, position_eq⟩
    refine ⟨first.toList, second.toList, ?_, ?_⟩
    · rw [← String.toList_append, ← same, String.toList_ofList]
    · rw [← utf8ByteSize_ofList, String.ofList_toList]
      exact (congrArg String.Pos.Raw.byteIdx position_eq).symm
  · rintro ⟨left, right, rfl, rfl⟩
    refine ⟨String.ofList left, String.ofList right, String.ofList_append, ?_⟩
    rw [← utf8ByteSize_ofList]
    rfl

theorem isBoundary_zero (text : List Char) : IsBoundary text 0 :=
  isBoundary_iff.mpr ⟨[], text, rfl, rfl⟩

theorem isBoundary_byteLength (text : List Char) : IsBoundary text (byteLength text) :=
  isBoundary_iff.mpr ⟨text, [], (List.append_nil text).symm, rfl⟩

theorem IsBoundary.le_byteLength (isBoundary : IsBoundary text offset) :
    offset ≤ byteLength text := by
  rcases isBoundary_iff.mp isBoundary with ⟨left, right, rfl, rfl⟩
  rw [byteLength_append]
  exact Nat.le_add_right _ _

/-- What stands in a text begins at a boundary and ends at one. -/
theorem OccursAt.isBoundary (occurs : OccursAt text offset part) :
    IsBoundary text offset ∧ IsBoundary text (offset + byteLength part) := by
  rcases occurs with ⟨left, right, rfl, rfl⟩
  constructor
  · exact isBoundary_iff.mpr ⟨left, part ++ right, rfl, rfl⟩
  · exact isBoundary_iff.mpr ⟨left ++ part, right, (List.append_assoc _ _ _).symm,
      byteLength_append left part⟩

/-- A text can be sliced exactly at two boundaries in order. -/
theorem isSome_slice?_iff :
    (slice? text start stop).isSome ↔
      start ≤ stop ∧ IsBoundary text start ∧ IsBoundary text stop := by
  rw [Option.isSome_iff_exists, isBoundary_iff, isBoundary_iff]
  constructor
  · rintro ⟨middle, cut⟩
    rcases exists_of_slice? cut with ⟨left, right, rfl, rfl, rfl⟩
    refine ⟨Nat.le_add_right _ _, ⟨left, middle ++ right, rfl, rfl⟩, left ++ middle, right, ?_, ?_⟩
    · rw [List.append_assoc]
    · rw [byteLength_append]
  · rintro ⟨ordered, ⟨left, behind, rfl, rfl⟩, before, right, same, rfl⟩
    rcases exists_of_append_eq_append same ordered with ⟨middle, rfl, rfl⟩
    exact ⟨middle, by rw [byteLength_append, slice?_append]⟩

end Formulary.Text
