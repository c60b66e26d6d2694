import Formulary.Proofs.Formula.Balance
import Formulary.Proofs.Formula.Enclosure
import Formulary.Proofs.Text.Position

/-!
# Brackets that belong together

Two brackets belong together if the text between them is balanced. The scan for pairs keeps the
offsets of the open brackets on a stack; a closing bracket further on closes the bracket with a
certain number of others above it if what stands before it is balanced behind that many brackets
(`Pairs`). So the scan finds the pairs of a balanced text and no others, and it gives up on any
other text.
-/

namespace Formulary.Formula

open Text

variable {text left right inner rest : List Char} {opened outer : List Nat}
  {offset opening closing : Nat} {pairs : List (Nat × Nat)} {c : Char}

/-! ## Balanced texts have pairs -/

theorem bracketPairsFrom_unopened (offset : Nat) (rest : List Char) :
    bracketPairsFrom offset [] (')' :: rest) = none := by
  rw [bracketPairsFrom, if_neg (by decide), if_pos rfl]

theorem isSome_bracketPairsFrom_iff :
    (bracketPairsFrom offset opened text).isSome ↔ BalancedAfter opened.length text := by
  induction text generalizing offset opened with
  | nil =>
    rw [balancedAfter_nil_iff]
    cases opened <;> simp [bracketPairsFrom]
  | cons c rest inductionHypothesis =>
    by_cases isOpening : c = '('
    · subst isOpening
      rw [bracketPairsFrom_opening, balancedAfter_opening_iff, inductionHypothesis,
        List.length_cons]
    by_cases isClosing : c = ')'
    · subst isClosing
      cases opened with
      | nil => simp [bracketPairsFrom_unopened, not_balancedAfter_closing]
      | cons innermost outer =>
        rw [bracketPairsFrom_closing, Option.isSome_map, inductionHypothesis, List.length_cons,
          balancedAfter_closing_succ_iff]
    · rw [bracketPairsFrom_plain isOpening isClosing, inductionHypothesis,
        balancedAfter_plain_iff isOpening isClosing]

theorem isSome_bracketPairs_iff : (bracketPairs text).isSome ↔ Balanced text := by
  rw [bracketPairs, isSome_bracketPairsFrom_iff, List.length_nil, balancedAfter_zero_iff]

/-! ## The brackets of a pair -/

/-- A bracket opens at one offset, a bracket closes at the other, and the text between them is
balanced. -/
def Paired (text : List Char) (opening closing : Nat) : Prop :=
  ∃ left inner right, text = left ++ '(' :: (inner ++ ')' :: right) ∧
    byteLength left = opening ∧ opening + 1 + byteLength inner = closing ∧ Balanced inner

/-- Behind open brackets, of which the offsets are given, the innermost first, a text closes one of
these with the second bracket of the pair, or it has both brackets. -/
inductive Pairs (opened : List Nat) (offset : Nat) (text : List Char) (opening closing : Nat) :
    Prop where
  | closes (level : Nat) (inner right : List Char) (isOpen : opened[level]? = some opening)
      (text_eq : text = inner ++ ')' :: right) (balanced : BalancedAfter level inner)
      (closing_eq : offset + byteLength inner = closing)
  | within (left inner right : List Char) (text_eq : text = left ++ '(' :: (inner ++ ')' :: right))
      (opening_eq : offset + byteLength left = opening)
      (closing_eq : opening + 1 + byteLength inner = closing) (balanced : Balanced inner)

theorem pairs_start_iff : Pairs [] 0 text opening closing ↔ Paired text opening closing := by
  constructor
  · rintro (⟨level, inner, right, isOpen, -, -, -⟩ |
      ⟨left, inner, right, text_eq, opening_eq, closing_eq, balanced⟩)
    · cases isOpen
    · rw [Nat.zero_add] at opening_eq
      exact ⟨left, inner, right, text_eq, opening_eq, closing_eq, balanced⟩
  · rintro ⟨left, inner, right, text_eq, opening_eq, closing_eq, balanced⟩
    rw [← Nat.zero_add (byteLength left)] at opening_eq
    exact .within left inner right text_eq opening_eq closing_eq balanced

theorem not_pairs_nil : ¬Pairs opened offset [] opening closing := by
  rintro (⟨level, inner, right, -, text_eq, -, -⟩ | ⟨left, inner, right, text_eq, -, -, -⟩)
  · cases inner <;> cases text_eq
  · cases left <;> cases text_eq

theorem byteLength_cons_of_small (small : c.utf8Size = 1) (rest : List Char) :
    byteLength (c :: rest) = byteLength rest + 1 := by
  rw [byteLength_cons, small, Nat.add_comm]

theorem pairs_opening_iff :
    Pairs opened offset ('(' :: rest) opening closing ↔
      Pairs (offset :: opened) (offset + 1) rest opening closing := by
  have length_eq := byteLength_cons_of_small (c := '(') rfl
  constructor
  · rintro (⟨level, inner, right, isOpen, text_eq, balanced, closing_eq⟩ |
      ⟨left, inner, right, text_eq, opening_eq, closing_eq, balanced⟩)
    · cases inner with
      | nil => cases text_eq
      | cons first inner =>
        cases text_eq
        rw [length_eq] at closing_eq
        apply Pairs.closes (level + 1) inner right isOpen rfl
        · exact balancedAfter_opening_iff.mp balanced
        · omega
    · cases left with
      | nil =>
        cases text_eq
        cases opening_eq
        exact .closes 0 inner right rfl rfl (balancedAfter_zero_iff.mpr balanced) closing_eq
      | cons first left =>
        cases text_eq
        rw [length_eq] at opening_eq
        exact .within left inner right rfl (by omega) closing_eq balanced
  · rintro (⟨level, inner, right, isOpen, rfl, balanced, closing_eq⟩ |
      ⟨left, inner, right, rfl, opening_eq, closing_eq, balanced⟩)
    · cases level with
      | zero =>
        cases isOpen
        exact .within [] inner right rfl rfl closing_eq (balancedAfter_zero_iff.mp balanced)
      | succ level =>
        apply Pairs.closes level ('(' :: inner) right isOpen rfl
        · exact balancedAfter_opening_iff.mpr balanced
        · rw [length_eq]
          omega
    · apply Pairs.within ('(' :: left) inner right rfl _ closing_eq balanced
      rw [length_eq]
      omega

theorem pairs_closing_iff {innermost : Nat} :
    Pairs (innermost :: outer) offset (')' :: rest) opening closing ↔
      opening = innermost ∧ closing = offset ∨ Pairs outer (offset + 1) rest opening closing := by
  have length_eq := byteLength_cons_of_small (c := ')') rfl
  constructor
  · rintro (⟨level, inner, right, isOpen, text_eq, balanced, closing_eq⟩ |
      ⟨left, inner, right, text_eq, opening_eq, closing_eq, balanced⟩)
    · cases inner with
      | nil =>
        obtain rfl := balancedAfter_nil_iff.mp balanced
        cases isOpen
        exact .inl ⟨rfl, closing_eq.symm⟩
      | cons first inner =>
        cases text_eq
        rcases balancedAfter_closing_iff.mp balanced with ⟨level, rfl, later⟩
        rw [length_eq] at closing_eq
        exact .inr (.closes level inner right isOpen rfl later (by omega))
    · cases left with
      | nil => cases text_eq
      | cons first left =>
        cases text_eq
        rw [length_eq] at opening_eq
        exact .inr (.within left inner right rfl (by omega) closing_eq balanced)
  · rintro (⟨rfl, rfl⟩ | ⟨level, inner, right, isOpen, rfl, balanced, closing_eq⟩ |
      ⟨left, inner, right, rfl, opening_eq, closing_eq, balanced⟩)
    · exact .closes 0 [] rest rfl rfl (balancedAfter_nil_iff.mpr rfl) rfl
    · apply Pairs.closes (level + 1) (')' :: inner) right isOpen rfl
      · exact balancedAfter_closing_succ_iff.mpr balanced
      · rw [length_eq]
        omega
    · apply Pairs.within (')' :: left) inner right rfl _ closing_eq balanced
      rw [length_eq]
      omega

theorem pairs_plain_iff (notOpening : c ≠ '(') (notClosing : c ≠ ')') :
    Pairs opened offset (c :: rest) opening closing ↔
      Pairs opened (offset + c.utf8Size) rest opening closing := by
  constructor
  · rintro (⟨level, inner, right, isOpen, text_eq, balanced, closing_eq⟩ |
      ⟨left, inner, right, text_eq, opening_eq, closing_eq, balanced⟩)
    · cases inner with
      | nil =>
        cases text_eq
        exact absurd rfl notClosing
      | cons first inner =>
        cases text_eq
        rw [byteLength_cons, ← Nat.add_assoc] at closing_eq
        exact .closes level inner right isOpen rfl
          ((balancedAfter_plain_iff notOpening notClosing).mp balanced) closing_eq
    · cases left with
      | nil =>
        cases text_eq
        exact absurd rfl notOpening
      | cons first left =>
        cases text_eq
        rw [byteLength_cons, ← Nat.add_assoc] at opening_eq
        exact .within left inner right rfl opening_eq closing_eq balanced
  · rintro (⟨level, inner, right, isOpen, rfl, balanced, closing_eq⟩ |
      ⟨left, inner, right, rfl, opening_eq, closing_eq, balanced⟩)
    · rw [Nat.add_assoc] at closing_eq
      exact .closes level (c :: inner) right isOpen rfl
        ((balancedAfter_plain_iff notOpening notClosing).mpr balanced) closing_eq
    · rw [Nat.add_assoc] at opening_eq
      exact .within (c :: left) inner right rfl opening_eq closing_eq balanced

/-- A scan for pairs, character by character. -/
inductive PairsFound :
    (offset : Nat) → (opened : List Nat) → List Char → List (Nat × Nat) → Prop where
  | done {offset : Nat} : PairsFound offset [] [] []
  | opening {offset : Nat} {opened : List Nat} {rest : List Char} {pairs : List (Nat × Nat)} :
      PairsFound (offset + 1) (offset :: opened) rest pairs →
        PairsFound offset opened ('(' :: rest) pairs
  | closing {offset innermost : Nat} {outer : List Nat} {rest : List Char}
      {pairs : List (Nat × Nat)} :
      PairsFound (offset + 1) outer rest pairs →
        PairsFound offset (innermost :: outer) (')' :: rest) ((innermost, offset) :: pairs)
  | plain {c : Char} {offset : Nat} {opened : List Nat} {rest : List Char}
      {pairs : List (Nat × Nat)} :
      c ≠ '(' → c ≠ ')' → PairsFound (offset + c.utf8Size) opened rest pairs →
        PairsFound offset opened (c :: rest) pairs

theorem pairsFound_of_bracketPairsFrom (found : bracketPairsFrom offset opened text = some pairs) :
    PairsFound offset opened text pairs := by
  induction text generalizing offset opened pairs with
  | nil =>
    cases opened with
    | nil =>
      cases found
      exact .done
    | cons innermost outer => cases found
  | cons c rest inductionHypothesis =>
    by_cases isOpening : c = '('
    · subst isOpening
      rw [bracketPairsFrom_opening] at found
      exact .opening (inductionHypothesis found)
    by_cases isClosing : c = ')'
    · subst isClosing
      cases opened with
      | nil =>
        rw [bracketPairsFrom_unopened] at found
        cases found
      | cons innermost outer =>
        rw [bracketPairsFrom_closing] at found
        rcases Option.map_eq_some_iff.mp found with ⟨others, foundLater, rfl⟩
        exact .closing (inductionHypothesis foundLater)
    · rw [bracketPairsFrom_plain isOpening isClosing] at found
      exact .plain isOpening isClosing (inductionHypothesis found)

/-- The scan finds exactly the pairs. -/
theorem PairsFound.mem_iff (found : PairsFound offset opened text pairs) :
    (opening, closing) ∈ pairs ↔ Pairs opened offset text opening closing := by
  -- `Pairs` has the stack of the scan, so each step of the scan is one of its equivalences.
  induction found with
  | done => simp [not_pairs_nil]
  | opening _ inductionHypothesis => rw [pairs_opening_iff, inductionHypothesis]
  | closing _ inductionHypothesis =>
    rw [pairs_closing_iff, List.mem_cons, inductionHypothesis, Prod.mk.injEq]
  | plain notOpening notClosing _ inductionHypothesis =>
    rw [pairs_plain_iff notOpening notClosing, inductionHypothesis]

theorem Pairs.le (isPair : Pairs opened offset text opening closing) : offset ≤ closing := by
  cases isPair with
  | closes => omega
  | within => omega

/-- The pairs come in the order in which they are closed. -/
theorem PairsFound.inOrder (found : PairsFound offset opened text pairs) :
    pairs.Pairwise fun first second => first.2 < second.2 := by
  induction found with
  | done => exact .nil
  | opening _ inductionHypothesis => exact inductionHypothesis
  | closing later inductionHypothesis =>
    apply List.Pairwise.cons _ inductionHypothesis
    intro pair member
    exact (later.mem_iff.mp member).le
  | plain _ _ _ inductionHypothesis => exact inductionHypothesis

/-- Every closing bracket is found. -/
theorem PairsFound.exists_mem (found : PairsFound offset opened text pairs)
    (text_eq : text = left ++ ')' :: right) :
    ∃ opening, (opening, offset + byteLength left) ∈ pairs := by
  induction found generalizing left with
  | done => cases left <;> cases text_eq
  | opening _ inductionHypothesis =>
    cases left with
    | nil => cases text_eq
    | cons c left =>
      cases text_eq
      rw [byteLength_cons, ← Nat.add_assoc]
      exact inductionHypothesis rfl
  | @closing _ innermost _ _ _ _ inductionHypothesis =>
    cases left with
    | nil => exact ⟨innermost, List.mem_cons_self⟩
    | cons c left =>
      cases text_eq
      rw [byteLength_cons, ← Nat.add_assoc]
      rcases inductionHypothesis rfl with ⟨opening, member⟩
      exact ⟨opening, List.mem_cons_of_mem _ member⟩
  | plain _ notClosing _ inductionHypothesis =>
    cases left with
    | nil =>
      cases text_eq
      exact absurd rfl notClosing
    | cons c left =>
      cases text_eq
      rw [byteLength_cons, ← Nat.add_assoc]
      exact inductionHypothesis rfl

theorem mem_bracketPairs_iff (found : bracketPairs text = some pairs) :
    (opening, closing) ∈ pairs ↔ Paired text opening closing := by
  rw [(pairsFound_of_bracketPairsFrom found).mem_iff, pairs_start_iff]

/-! ## One pair for each bracket -/

theorem Paired.lt (paired : Paired text opening closing) : opening < closing := by
  rcases paired with ⟨left, inner, right, -, -, closing_eq, -⟩
  omega

theorem Paired.occursAt_opening (paired : Paired text opening closing) :
    OccursAt text opening ['('] := by
  rcases paired with ⟨left, inner, right, rfl, rfl, -, -⟩
  exact occursAt_append left ['('] (inner ++ ')' :: right)

theorem Paired.occursAt_closing (paired : Paired text opening closing) :
    OccursAt text closing [')'] := by
  rcases paired with ⟨left, inner, right, rfl, rfl, rfl, -⟩
  refine ⟨left ++ '(' :: inner, right, by simp, ?_⟩
  rw [byteLength_append, byteLength_cons_of_small rfl]
  omega

/-- A bracket is closed by one bracket only. -/
theorem Paired.closing_unique {other : Nat} (first : Paired text opening closing)
    (second : Paired text opening other) : closing = other := by
  rcases first with ⟨left, inner, right, rfl, rfl, rfl, balanced⟩
  rcases second with ⟨left', inner', right', same, equal, rfl, otherBalanced⟩
  have behind := (append_inj_of_byteLength same equal.symm).2
  rw [List.cons.injEq] at behind
  rw [balanced.eq_of_closed otherBalanced behind.2]

/-- A bracket closes one bracket only. -/
theorem Paired.opening_unique {other : Nat} (first : Paired text opening closing)
    (second : Paired text other closing) : opening = other := by
  rcases first with ⟨left, inner, right, rfl, rfl, rfl, balanced⟩
  rcases second with ⟨left', inner', right', same, rfl, equal, otherBalanced⟩
  rw [← List.cons_append, ← List.append_assoc, ← List.cons_append, ← List.append_assoc] at same
  have before := (append_inj_of_byteLength same (by
    rw [byteLength_append, byteLength_append, byteLength_cons, byteLength_cons]
    have small : '('.utf8Size = 1 := rfl
    omega)).1
  rw [balanced.eq_of_opened otherBalanced before]

theorem exists_paired_of_opening (balanced : Balanced text)
    (occurs : OccursAt text opening ['(']) : ∃ closing, Paired text opening closing := by
  rcases occurs with ⟨left, behind, rfl, rfl⟩
  rcases (balancedAfter_zero_iff.mpr balanced).closesOutside_of_opening with
    ⟨inner, right, rfl, innerBalanced⟩
  exact ⟨_, left, inner, right, rfl, rfl, rfl, balancedAfter_zero_iff.mp innerBalanced⟩

/-- These are the pairs of brackets of the text, in the order in which they are closed, and every
bracket belongs to one of them and to no other. -/
structure IsPairing (text : List Char) (pairs : List (Nat × Nat)) : Prop where
  mem_iff : ∀ opening closing, (opening, closing) ∈ pairs ↔ Paired text opening closing
  inOrder : pairs.Pairwise fun first second => first.2 < second.2
  opening : ∀ opening, OccursAt text opening ['('] → ∃! pair, pair ∈ pairs ∧ pair.1 = opening
  closing : ∀ closing, OccursAt text closing [')'] → ∃! pair, pair ∈ pairs ∧ pair.2 = closing

theorem isPairing_of_bracketPairs (found : bracketPairs text = some pairs) :
    IsPairing text pairs where
  mem_iff opening closing := mem_bracketPairs_iff found
  inOrder := (pairsFound_of_bracketPairsFrom found).inOrder
  opening opening occurs := by
    have balanced := isSome_bracketPairs_iff.mp (Option.isSome_of_eq_some found)
    rcases exists_paired_of_opening balanced occurs with ⟨closing, paired⟩
    apply ExistsUnique.intro (opening, closing) ⟨(mem_bracketPairs_iff found).mpr paired, rfl⟩
    rintro ⟨other, end_⟩ ⟨member, rfl⟩
    rw [paired.closing_unique ((mem_bracketPairs_iff found).mp member)]
  closing closing occurs := by
    rcases occurs with ⟨left, right, rfl, rfl⟩
    rcases (pairsFound_of_bracketPairsFrom found).exists_mem rfl with ⟨opening, member⟩
    rw [Nat.zero_add] at member
    apply ExistsUnique.intro (opening, byteLength left) ⟨member, rfl⟩
    rintro ⟨other, closing⟩ ⟨otherMember, rfl⟩
    have paired := (mem_bracketPairs_iff found).mp member
    rw [paired.opening_unique ((mem_bracketPairs_iff found).mp otherMember)]

end Formulary.Formula
