/-!
# Byte offsets into a text

Positions in messages count the bytes of the UTF-8 form, and a formula is cut at such offsets. A cut
is possible only between two characters: `slice?` answers `none` for any other pair of offsets.

The main statement, `slice?_append`, says that cutting at the lengths of the outer parts gives back
the part between them.
-/

namespace Formulary.Text

/-- The number of bytes of the UTF-8 form. -/
def byteLength : List Char → Nat
  | [] => 0
  | c :: rest => c.utf8Size + byteLength rest

@[simp]
theorem byteLength_nil : byteLength [] = 0 :=
  rfl

@[simp]
theorem byteLength_cons (c : Char) (rest : List Char) :
    byteLength (c :: rest) = c.utf8Size + byteLength rest :=
  rfl

@[simp]
theorem byteLength_append (left right : List Char) :
    byteLength (left ++ right) = byteLength left + byteLength right := by
  induction left with
  | nil => simp
  | cons c rest inductionHypothesis => simp [inductionHypothesis, Nat.add_assoc]

/-- Only the empty text has no bytes. -/
theorem byteLength_eq_zero {text : List Char} (zero : byteLength text = 0) : text = [] := by
  cases text with
  | nil => rfl
  | cons c rest =>
    have := c.utf8Size_pos
    simp at zero
    omega

/-- The text from a byte offset on, if the offset falls between two characters or at an end. -/
def dropBytes? : Nat → List Char → Option (List Char)
  | 0, text => some text
  | _ + 1, [] => none
  | count + 1, c :: rest =>
    if c.utf8Size ≤ count + 1 then dropBytes? (count + 1 - c.utf8Size) rest else none

/-- The text up to a byte offset, if the offset falls between two characters or at an end. -/
def takeBytes? : Nat → List Char → Option (List Char)
  | 0, _ => some []
  | _ + 1, [] => none
  | count + 1, c :: rest =>
    if c.utf8Size ≤ count + 1 then
      (takeBytes? (count + 1 - c.utf8Size) rest).map (c :: ·)
    else
      none

/-- The text between two byte offsets, if both fall between characters and in this order. -/
def slice? (text : List Char) (start stop : Nat) : Option (List Char) :=
  if start ≤ stop then (dropBytes? start text).bind (takeBytes? (stop - start)) else none

@[simp]
theorem dropBytes?_zero (text : List Char) : dropBytes? 0 text = some text := by
  cases text <;> rfl

@[simp]
theorem takeBytes?_zero (text : List Char) : takeBytes? 0 text = some [] := by
  cases text <;> rfl

/-- A character in front is dropped together with its bytes. -/
theorem dropBytes?_cons (c : Char) (count : Nat) (rest : List Char) :
    dropBytes? (c.utf8Size + count) (c :: rest) = dropBytes? count rest := by
  obtain ⟨before, size_eq⟩ : ∃ before, c.utf8Size + count = before + 1 :=
    ⟨c.utf8Size + count - 1, by have := c.utf8Size_pos; omega⟩
  rw [size_eq, dropBytes?, if_pos (by omega)]
  congr 1
  omega

/-- A character in front is taken together with its bytes. -/
theorem takeBytes?_cons (c : Char) (count : Nat) (rest : List Char) :
    takeBytes? (c.utf8Size + count) (c :: rest) = (takeBytes? count rest).map (c :: ·) := by
  obtain ⟨before, size_eq⟩ : ∃ before, c.utf8Size + count = before + 1 :=
    ⟨c.utf8Size + count - 1, by have := c.utf8Size_pos; omega⟩
  rw [size_eq, takeBytes?, if_pos (by omega)]
  congr 2
  omega

theorem dropBytes?_append (left right : List Char) :
    dropBytes? (byteLength left) (left ++ right) = some right := by
  induction left with
  | nil => simp
  | cons c rest inductionHypothesis =>
    rw [List.cons_append, byteLength_cons, dropBytes?_cons, inductionHypothesis]

theorem takeBytes?_append (left right : List Char) :
    takeBytes? (byteLength left) (left ++ right) = some left := by
  induction left with
  | nil => simp
  | cons c rest inductionHypothesis =>
    rw [List.cons_append, byteLength_cons, takeBytes?_cons, inductionHypothesis]
    rfl

/-- Cutting at the lengths of the outer parts gives back the part between them. -/
theorem slice?_append (left middle right : List Char) :
    slice? (left ++ (middle ++ right)) (byteLength left) (byteLength left + byteLength middle) =
      some middle := by
  rw [slice?, if_pos (Nat.le_add_right _ _), dropBytes?_append, Option.bind_some,
    Nat.add_sub_cancel_left, takeBytes?_append]

/-- No character of a text has more bytes than the text. -/
theorem utf8Size_le_byteLength {c : Char} {text : List Char} (member : c ∈ text) :
    c.utf8Size ≤ byteLength text := by
  induction text with
  | nil => cases member
  | cons first rest inductionHypothesis =>
    rw [byteLength_cons]
    rcases List.mem_cons.mp member with rfl | inRest
    · exact Nat.le_add_right _ _
    · exact Nat.le_trans (inductionHypothesis inRest) (Nat.le_add_left _ _)

/-- What is dropped has the bytes up to the offset. -/
theorem exists_of_dropBytes? {count : Nat} {text right : List Char}
    (dropped : dropBytes? count text = some right) :
    ∃ left, text = left ++ right ∧ byteLength left = count := by
  fun_induction dropBytes? count text with
  | case1 text =>
    cases dropped
    exact ⟨[], rfl, rfl⟩
  | case2 count => cases dropped
  | case3 count c rest fits inductionHypothesis =>
    rcases inductionHypothesis dropped with ⟨left, rfl, length_eq⟩
    exact ⟨c :: left, rfl, by rw [byteLength_cons]; omega⟩
  | case4 count c rest wide => cases dropped

/-- What is taken has the bytes up to the offset. -/
theorem exists_of_takeBytes? {count : Nat} {text left : List Char}
    (taken : takeBytes? count text = some left) :
    ∃ right, text = left ++ right ∧ byteLength left = count := by
  fun_induction takeBytes? count text generalizing left with
  | case1 text =>
    cases taken
    exact ⟨text, rfl, rfl⟩
  | case2 count => cases taken
  | case3 count c rest fits inductionHypothesis =>
    rcases Option.map_eq_some_iff.mp taken with ⟨others, takenRest, rfl⟩
    rcases inductionHypothesis takenRest with ⟨right, rfl, length_eq⟩
    exact ⟨right, rfl, by rw [byteLength_cons]; omega⟩
  | case4 count c rest wide => cases taken

/-- What is cut out stands between parts that end and begin at the offsets. -/
theorem exists_of_slice? {text middle : List Char} {start stop : Nat}
    (cut : slice? text start stop = some middle) :
    ∃ left right, text = left ++ (middle ++ right) ∧ byteLength left = start ∧
      byteLength left + byteLength middle = stop := by
  rw [slice?] at cut
  split at cut
  · rename_i ordered
    rcases Option.bind_eq_some_iff.mp cut with ⟨behind, dropped, taken⟩
    rcases exists_of_dropBytes? dropped with ⟨left, rfl, leftLength⟩
    rcases exists_of_takeBytes? taken with ⟨right, rfl, middleLength⟩
    exact ⟨left, right, rfl, leftLength, by omega⟩
  · cases cut

/-- Neighbouring characters, each pair with the byte offset of its first. -/
def neighbours : (offset : Nat) → List Char → List (Nat × Char × Char)
  | offset, first :: second :: rest =>
    (offset, first, second) :: neighbours (offset + first.utf8Size) (second :: rest)
  | _, _ => []

end Formulary.Text
