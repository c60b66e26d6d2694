import Formulary.Formula.Bracket
import Mathlib.Data.List.Basic

/-!
# Texts that close brackets

A text may stand behind open brackets. It is balanced there if it closes these and its own and no
more. Each kind of character takes this condition to the rest of the text, with one open bracket
more, one less, or as many as before; so do the related conditions that a certain open bracket is
closed, and that none is left open.
-/

namespace Formulary.Formula

variable {text left right inner other rest : List Char} {opened outer level : Nat} {c : Char}

/-! ## Balanced behind open brackets -/

/-- Behind this many open brackets the text closes those and its own, and no more. -/
def BalancedAfter (opened : Nat) (text : List Char) : Prop :=
  (∀ left, left <+: text → left.count ')' ≤ opened + left.count '(') ∧
    opened + text.count '(' = text.count ')'

theorem balancedAfter_zero_iff : BalancedAfter 0 text ↔ Balanced text := by
  simp [BalancedAfter, Balanced]

theorem balancedAfter_nil_iff : BalancedAfter opened [] ↔ opened = 0 := by
  simp [BalancedAfter]

theorem forall_prefix_cons_iff {property : List Char → Prop} :
    (∀ left, left <+: c :: rest → property left) ↔
      property [] ∧ ∀ left, left <+: rest → property (c :: left) := by
  constructor
  · intro all
    exact ⟨all [] List.nil_prefix, fun left isPrefix =>
      all (c :: left) (List.cons_prefix_cons.mpr ⟨rfl, isPrefix⟩)⟩
  · rintro ⟨empty, later⟩ left isPrefix
    rcases List.prefix_cons_iff.mp isPrefix with rfl | ⟨shorter, rfl, isPrefixOfRest⟩
    · exact empty
    · exact later shorter isPrefixOfRest

theorem balancedAfter_opening_iff :
    BalancedAfter opened ('(' :: rest) ↔ BalancedAfter (opened + 1) rest := by
  rw [BalancedAfter, BalancedAfter, forall_prefix_cons_iff]
  simp [Nat.add_assoc, Nat.add_comm 1]

theorem not_balancedAfter_closing : ¬BalancedAfter 0 (')' :: rest) := by
  rintro ⟨enough, -⟩
  have closed := enough [')'] (List.cons_prefix_cons.mpr ⟨rfl, List.nil_prefix⟩)
  simp at closed

theorem balancedAfter_closing_succ_iff :
    BalancedAfter (opened + 1) (')' :: rest) ↔ BalancedAfter opened rest := by
  rw [BalancedAfter, BalancedAfter, forall_prefix_cons_iff]
  simp [Nat.add_right_comm opened 1]

theorem balancedAfter_closing_iff :
    BalancedAfter opened (')' :: rest) ↔
      ∃ outer, opened = outer + 1 ∧ BalancedAfter outer rest := by
  cases opened with
  | zero => simp [not_balancedAfter_closing]
  | succ outer => simp [balancedAfter_closing_succ_iff]

theorem balancedAfter_plain_iff (notOpening : c ≠ '(') (notClosing : c ≠ ')') :
    BalancedAfter opened (c :: rest) ↔ BalancedAfter opened rest := by
  rw [BalancedAfter, BalancedAfter, forall_prefix_cons_iff]
  simp [notOpening, notClosing]

/-- A balanced text with a bracket to close it is not balanced, whatever follows. -/
theorem Balanced.not_closed (balanced : Balanced inner) : ¬Balanced (inner ++ ')' :: right) := by
  rintro ⟨enough, -⟩
  have closed := enough (inner ++ [')']) ⟨right, by simp⟩
  have same := balanced.2
  simp only [List.count_append, List.count_singleton] at closed
  simp at closed
  omega

/-- A balanced text with a bracket to open it is not balanced, whatever comes before. -/
theorem Balanced.not_opened (balanced : Balanced inner) : ¬Balanced (left ++ '(' :: inner) := by
  rintro ⟨enough, total⟩
  have before := enough left (List.prefix_append _ _)
  have same := balanced.2
  simp at total
  omega

/-- The bracket that closes what stands before a balanced text is determined by this text. -/
theorem Balanced.eq_of_closed {right' : List Char} (first : Balanced inner)
    (second : Balanced other) (same : inner ++ ')' :: right = other ++ ')' :: right') :
    inner = other := by
  rcases List.append_eq_append_iff.mp same with
    ⟨between, rfl, right_eq⟩ | ⟨between, rfl, right_eq⟩
  · cases between with
    | nil => rw [List.append_nil]
    | cons c between =>
      cases right_eq
      exact absurd second first.not_closed
  · cases between with
    | nil => rw [List.append_nil]
    | cons c between =>
      cases right_eq
      exact absurd first second.not_closed

/-- The bracket that opens what stands behind it is determined by the balanced text between. -/
theorem Balanced.eq_of_opened {left' : List Char} (first : Balanced inner)
    (second : Balanced other) (same : left ++ '(' :: inner = left' ++ '(' :: other) :
    left = left' := by
  rcases List.append_eq_append_iff.mp same with
    ⟨between, rfl, inner_eq⟩ | ⟨between, rfl, other_eq⟩
  · cases between with
    | nil => rw [List.append_nil]
    | cons c between =>
      cases inner_eq
      exact absurd first second.not_opened
  · cases between with
    | nil => rw [List.append_nil]
    | cons c between =>
      cases other_eq
      exact absurd second first.not_opened

/-! ## Brackets that are closed -/

/-- The text closes the open bracket that has this many others within it. -/
def ClosesOutside (level : Nat) (text : List Char) : Prop :=
  ∃ inner right, text = inner ++ ')' :: right ∧ BalancedAfter level inner

theorem not_closesOutside_nil : ¬ClosesOutside level [] := by
  rintro ⟨inner, right, text_eq, -⟩
  cases inner <;> cases text_eq

theorem closesOutside_cons_iff :
    ClosesOutside level (c :: rest) ↔
      c = ')' ∧ level = 0 ∨
        ∃ inner right, rest = inner ++ ')' :: right ∧ BalancedAfter level (c :: inner) := by
  constructor
  · rintro ⟨inner, right, text_eq, balanced⟩
    cases inner with
    | nil =>
      cases text_eq
      exact .inl ⟨rfl, balancedAfter_nil_iff.mp balanced⟩
    | cons first inner =>
      cases text_eq
      exact .inr ⟨inner, right, rfl, balanced⟩
  · rintro (⟨rfl, rfl⟩ | ⟨inner, right, rfl, balanced⟩)
    · exact ⟨[], rest, rfl, balancedAfter_nil_iff.mpr rfl⟩
    · exact ⟨c :: inner, right, rfl, balanced⟩

theorem closesOutside_opening_iff :
    ClosesOutside level ('(' :: rest) ↔ ClosesOutside (level + 1) rest := by
  rw [closesOutside_cons_iff]
  simp only [balancedAfter_opening_iff]
  simp [ClosesOutside]

theorem closesOutside_closing_zero : ClosesOutside 0 (')' :: rest) :=
  closesOutside_cons_iff.mpr (.inl ⟨rfl, rfl⟩)

theorem closesOutside_closing_succ_iff :
    ClosesOutside (level + 1) (')' :: rest) ↔ ClosesOutside level rest := by
  rw [closesOutside_cons_iff]
  simp only [balancedAfter_closing_succ_iff]
  simp [ClosesOutside]

theorem closesOutside_plain_iff (notOpening : c ≠ '(') (notClosing : c ≠ ')') :
    ClosesOutside level (c :: rest) ↔ ClosesOutside level rest := by
  rw [closesOutside_cons_iff]
  simp only [balancedAfter_plain_iff notOpening notClosing]
  simp [ClosesOutside, notClosing]

/-- A balanced text closes all brackets that are open before it. -/
theorem BalancedAfter.closesOutside (balanced : BalancedAfter opened text)
    (within : level < opened) : ClosesOutside level text := by
  induction text generalizing opened level with
  | nil =>
    obtain rfl := balancedAfter_nil_iff.mp balanced
    exact absurd within (Nat.not_lt_zero _)
  | cons c rest inductionHypothesis =>
    by_cases isOpening : c = '('
    · subst isOpening
      rw [balancedAfter_opening_iff] at balanced
      rw [closesOutside_opening_iff]
      exact inductionHypothesis balanced (Nat.succ_lt_succ within)
    by_cases isClosing : c = ')'
    · subst isClosing
      rcases balancedAfter_closing_iff.mp balanced with ⟨outer, rfl, later⟩
      cases level with
      | zero => exact closesOutside_closing_zero
      | succ level =>
        rw [closesOutside_closing_succ_iff]
        exact inductionHypothesis later (Nat.lt_of_succ_lt_succ within)
    · rw [balancedAfter_plain_iff isOpening isClosing] at balanced
      rw [closesOutside_plain_iff isOpening isClosing]
      exact inductionHypothesis balanced within

/-- A balanced text closes all brackets that it opens. -/
theorem BalancedAfter.closesOutside_of_opening
    (balanced : BalancedAfter opened (left ++ '(' :: right)) : ClosesOutside 0 right := by
  induction left generalizing opened with
  | nil =>
    rw [List.nil_append, balancedAfter_opening_iff] at balanced
    exact balanced.closesOutside (Nat.succ_pos opened)
  | cons c rest inductionHypothesis =>
    rw [List.cons_append] at balanced
    by_cases isOpening : c = '('
    · subst isOpening
      exact inductionHypothesis (balancedAfter_opening_iff.mp balanced)
    by_cases isClosing : c = ')'
    · subst isClosing
      rcases balancedAfter_closing_iff.mp balanced with ⟨outer, -, later⟩
      exact inductionHypothesis later
    · exact inductionHypothesis ((balancedAfter_plain_iff isOpening isClosing).mp balanced)

/-! ## Texts that leave no bracket open -/

/-- Behind this many open brackets the text leaves none open, neither one of those nor one of its
own. It may have closing brackets to which no open one belongs. -/
def LeavesNoneOpen (opened : Nat) (text : List Char) : Prop :=
  (∀ level, level < opened → ClosesOutside level text) ∧
    ∀ left right, text = left ++ '(' :: right → ClosesOutside 0 right

theorem leavesNoneOpen_nil_iff : LeavesNoneOpen opened [] ↔ opened = 0 := by
  constructor
  · rintro ⟨closed, -⟩
    by_contra positive
    exact not_closesOutside_nil (closed 0 (Nat.pos_of_ne_zero positive))
  · rintro rfl
    constructor
    · intro level impossible
      cases impossible
    · intro left right impossible
      cases left <;> cases impossible

/-- What a text opens behind its first character is what the rest of the text opens. -/
theorem forall_opening_cons_iff {property : List Char → Prop} (notOpening : c ≠ '(') :
    (∀ left right, c :: rest = left ++ '(' :: right → property right) ↔
      ∀ left right, rest = left ++ '(' :: right → property right := by
  constructor
  · rintro all left right rfl
    exact all (c :: left) right rfl
  · intro all left right text_eq
    cases left with
    | nil =>
      cases text_eq
      exact absurd rfl notOpening
    | cons first left =>
      cases text_eq
      exact all left right rfl

theorem leavesNoneOpen_opening_iff :
    LeavesNoneOpen opened ('(' :: rest) ↔ LeavesNoneOpen (opened + 1) rest := by
  constructor
  · rintro ⟨closed, own⟩
    constructor
    · intro level within
      cases level with
      | zero => exact own [] rest rfl
      | succ level =>
        exact closesOutside_opening_iff.mp (closed level (Nat.lt_of_succ_lt_succ within))
    · rintro left right rfl
      exact own ('(' :: left) right rfl
  · rintro ⟨closed, own⟩
    constructor
    · intro level within
      exact closesOutside_opening_iff.mpr (closed (level + 1) (Nat.succ_lt_succ within))
    · intro left right text_eq
      cases left with
      | nil =>
        cases text_eq
        exact closed 0 (Nat.succ_pos opened)
      | cons first left =>
        cases text_eq
        exact own left right rfl

theorem leavesNoneOpen_closing_iff :
    LeavesNoneOpen opened (')' :: rest) ↔ LeavesNoneOpen (opened - 1) rest := by
  rw [LeavesNoneOpen, LeavesNoneOpen, forall_opening_cons_iff (by decide)]
  apply and_congr_left'
  constructor
  · intro closed level within
    exact closesOutside_closing_succ_iff.mp (closed (level + 1) (Nat.add_lt_of_lt_sub within))
  · intro closed level within
    cases level with
    | zero => exact closesOutside_closing_zero
    | succ level =>
      exact closesOutside_closing_succ_iff.mpr (closed level (Nat.lt_sub_of_add_lt within))

theorem leavesNoneOpen_plain_iff (notOpening : c ≠ '(') (notClosing : c ≠ ')') :
    LeavesNoneOpen opened (c :: rest) ↔ LeavesNoneOpen opened rest := by
  rw [LeavesNoneOpen, LeavesNoneOpen, forall_opening_cons_iff notOpening]
  simp only [closesOutside_plain_iff notOpening notClosing]

/-- The brackets that are open behind a character. A closing bracket that closes none is passed
over. -/
def openBehind (opened : Nat) (c : Char) : Nat :=
  if c = '(' then opened + 1 else if c = ')' then opened - 1 else opened

theorem leavesNoneOpen_cons_iff :
    LeavesNoneOpen opened (c :: rest) ↔ LeavesNoneOpen (openBehind opened c) rest := by
  rw [openBehind]
  split
  · rename_i isOpening
    subst isOpening
    exact leavesNoneOpen_opening_iff
  split
  · rename_i isClosing
    subst isClosing
    exact leavesNoneOpen_closing_iff
  · rename_i notOpening notClosing
    exact leavesNoneOpen_plain_iff notOpening notClosing

end Formulary.Formula
