import Formulary.Proofs.Formula.Derivable

/-!
# Accepted texts are the texts of trees

A text is accepted as a formula exactly if a tree spells it, as long as its digits are ASCII digits
and whatever is written with digits, points and power signs alone is a number or a power of two
numbers. What is accepted is the text without its blank characters and with a point for every comma,
and it is accepted again as it is.
-/

namespace Formulary.Formula

open Text

variable {raw text left right run : List Char} {c : Char}

/-! ## What is accepted -/

theorem find?_neighbours_eq_none {property : Char → Char → Bool} {offset : Nat}
    (chain : text.IsChain fun first second => property first second = false) :
    ((neighbours offset text).find? fun (_, first, second) => property first second) = none := by
  induction chain generalizing offset with
  | nil => rfl
  | singleton c => rfl
  | cons_cons lacks _ inductionHypothesis =>
    rw [neighbours, List.find?_cons]
    simp only [lacks]
    exact inductionHypothesis

/-- What has to hold of a text so that it is accepted is enough. -/
theorem Accepted.canonical_eq (accepted : Accepted (canonicalText raw)) :
    canonical raw = .ok (canonicalText raw) := by
  have operators : checkOperators (canonicalText raw) = .ok () := by
    have chain := accepted.neighbours.imp fun _ _ fits => fits.notOperators
    rw [checkOperators, find?_neighbours_eq_none chain]
  have brackets : checkBrackets (canonicalText raw) = .ok () := by
    rw [checkBrackets, accepted.brackets]
  have first : checkFirst (canonicalText raw) = .ok () := by
    rw [checkFirst]
    split
    · rename_i c isHead
      exact if_neg (not_or.mpr (accepted.begins c isHead))
    · rfl
  have last : checkLast (canonicalText raw) = .ok () := by
    rw [checkLast]
    split
    · rename_i c isLast
      rw [accepted.ends c isLast]
      rfl
    · rfl
  have others : checkNeighbours (canonicalText raw) = .ok () := by
    have chain := accepted.neighbours.imp fun first second fits =>
      Bool.or_eq_false_iff.mpr ⟨fits.notJoined, fits.notMissing⟩
    simp only [checkNeighbours, find?_neighbours_eq_none chain]
  have tokens : tokensPattern.accepts (canonicalText raw) = true :=
    Pattern.accepts_iff.mpr accepted.tokens
  rw [canonical]
  simp only [if_neg accepted.nonempty, tokens, operators, brackets, first, last, others]
  rfl

theorem eq_canonicalText (spelled : canonical raw = .ok text) : text = canonicalText raw := by
  rw [canonical] at spelled
  simp only at spelled
  split at spelled
  · cases spelled
  split at spelled
  · cases spelled
  rcases ok_of_bind spelled with ⟨-, spelled⟩
  rcases ok_of_bind spelled with ⟨-, spelled⟩
  rcases ok_of_bind spelled with ⟨-, spelled⟩
  rcases ok_of_bind spelled with ⟨-, spelled⟩
  rcases ok_of_bind spelled with ⟨-, spelled⟩
  cases spelled
  rfl

theorem canonical_eq_ok_iff :
    canonical raw = .ok text ↔ text = canonicalText raw ∧ Accepted text := by
  constructor
  · intro spelled
    exact ⟨eq_canonicalText spelled, accepted_of_canonical spelled⟩
  · rintro ⟨rfl, accepted⟩
    exact accepted.canonical_eq

/-- A text without blanks and commas is in its form. -/
theorem canonicalText_eq_self (kept : ∀ c ∈ raw, isBlank c = false ∧ c ≠ ',') :
    canonicalText raw = raw := by
  have filtered : raw.filter (fun c => !isBlank c) = raw :=
    List.filter_eq_self.mpr fun c member => by simp [(kept c member).1]
  rw [canonicalText, filtered]
  exact (List.map_congr_left fun c member => if_neg (kept c member).2).trans (List.map_id _)

theorem kept_of_mem_canonicalText {c : Char} (member : c ∈ canonicalText raw) :
    isBlank c = false ∧ c ≠ ',' := by
  have notBlank : isBlank '.' = false := by decide
  rcases List.mem_map.mp member with ⟨old, inRaw, rfl⟩
  split
  · exact ⟨notBlank, by decide⟩
  · rename_i notComma
    exact ⟨by simpa using (List.mem_filter.mp inRaw).2, notComma⟩

/-- A text that has been brought into its form keeps it. -/
theorem canonicalText_canonicalText (raw : List Char) :
    canonicalText (canonicalText raw) = canonicalText raw :=
  canonicalText_eq_self fun _ => kept_of_mem_canonicalText

/-! ## Runs of digits, points and power signs -/

/-- The longest parts of a text that are written with digits, points and power signs alone. -/
def powerRuns (text : List Char) : List (List Char) :=
  (text.splitOnP fun c => !isPowerChar c).filter (· ≠ [])

/-- A number, or a number raised to a number. -/
inductive IsPower : List Char → Prop where
  | number (numeral : Numeral) : IsPower numeral.text
  | power (base exponent : Numeral) : IsPower (base.text ++ '^' :: exponent.text)

/-- Whatever is written with digits, points and power signs alone is a number or a power of two. -/
def WellPowered (text : List Char) : Prop :=
  ∀ run ∈ powerRuns text, IsPower run

theorem powerRuns_of_forall (nonempty : run ≠ []) (each : ∀ c ∈ run, isPowerChar c = true) :
    powerRuns run = [run] := by
  have unsplit : run.splitOnP (fun c => !isPowerChar c) = [run] :=
    List.splitOnP_eq_singleton fun c member => by simp [each c member]
  rw [powerRuns, unsplit, List.filter_singleton]
  simp [nonempty]

theorem powerRuns_append_cons (foreign : isPowerChar c = false) :
    powerRuns (left ++ c :: right) = powerRuns left ++ powerRuns right := by
  have parts : (left ++ c :: right).splitOnP (fun c => !isPowerChar c) = _ :=
    List.splitOnP_append_cons left right (by simp [foreign])
  rw [powerRuns, parts, List.filter_append]
  rfl

theorem wellPowered_append_cons_iff (foreign : isPowerChar c = false) :
    WellPowered (left ++ c :: right) ↔ WellPowered left ∧ WellPowered right := by
  simp only [WellPowered, powerRuns_append_cons foreign, List.mem_append, or_imp, forall_and]

theorem wellPowered_cons_iff (foreign : isPowerChar c = false) :
    WellPowered (c :: right) ↔ WellPowered right := by
  have empty : WellPowered [] := by
    intro run member
    rw [powerRuns, List.splitOnP_nil] at member
    cases member
  exact (wellPowered_append_cons_iff foreign).trans (and_iff_right empty)

theorem isPowerChar_symbol (operator : Operator) : isPowerChar operator.symbol = false := by
  cases operator <;> decide

theorem WellPowered.operands {rest : Operands (List Char)}
    (wellPowered : WellPowered (text ++ operandsText rest)) :
    WellPowered text ∧ ∀ item ∈ rest, WellPowered item.2 := by
  induction rest generalizing text with
  | nil =>
    rw [operandsText, List.append_nil] at wellPowered
    exact ⟨wellPowered, nofun⟩
  | cons item rest inductionHypothesis =>
    rcases (wellPowered_append_cons_iff (isPowerChar_symbol item.1)).mp wellPowered with
      ⟨before, behind⟩
    exact ⟨before, List.forall_mem_cons.mpr (inductionHypothesis behind)⟩

theorem WellPowered.row {sign : Option Bool} {first : List Char} {rest : Operands (List Char)}
    (wellPowered : WellPowered (rowText sign first rest)) :
    WellPowered first ∧ ∀ item ∈ rest, WellPowered item.2 := by
  rcases sign with _ | _ | _
  · exact wellPowered.operands
  · exact ((wellPowered_cons_iff (isPowerChar_symbol .add)).mp wellPowered).operands
  · exact ((wellPowered_cons_iff (isPowerChar_symbol .subtract)).mp wellPowered).operands

/-! ## Trees of accepted texts -/

theorem IsPowers.isPowerChar (isPowers : IsPowers IsRun text) :
    ∀ c ∈ text, isPowerChar c = true := by
  induction isPowers with
  | run isRun => exact isRun.isPowerChar
  | power isRun _ inductionHypothesis =>
    intro c member
    rcases List.mem_append.mp member with member | member
    · exact isRun.isPowerChar c member
    rcases List.mem_cons.mp member with rfl | member
    · decide
    · exact inductionHypothesis c member

theorem IsPowers.isPower (isPowers : IsPowers IsRun text) (wellPowered : WellPowered text) :
    IsPower text := by
  have nonempty : text ≠ [] := by
    rcases isPowers.begins with ⟨c, rest, rfl, -⟩
    exact List.cons_ne_nil c rest
  apply wellPowered
  rw [powerRuns_of_forall nonempty isPowers.isPowerChar]
  exact List.mem_singleton_self text

theorem exists_rest {rest : Operands (List Char)}
    (terms : ∀ item ∈ rest, ∃ term : Term, item.2 = term.text) :
    ∃ others, operandsText rest = restText others := by
  induction rest with
  | nil => exact ⟨[], by rw [operandsText, restText]⟩
  | cons item rest inductionHypothesis =>
    rcases List.forall_mem_cons.mp terms with ⟨⟨term, term_eq⟩, later⟩
    rcases inductionHypothesis later with ⟨others, others_eq⟩
    exact ⟨(item.1, term) :: others, by rw [operandsText, restText, term_eq, others_eq]; rfl⟩

/-- A term whose powers are of two numbers at most is the text of a tree. -/
theorem IsTerm.exists_term (isTerm : IsTerm IsRun text) (wellPowered : WellPowered text) :
    ∃ term : Term, text = term.text := by
  induction isTerm with
  | powers isPowers =>
    cases isPowers.isPower wellPowered with
    | number numeral => exact ⟨.number numeral, by rw [Term.text]⟩
    | power base exponent => exact ⟨.power base exponent, by rw [Term.text]⟩
  | logarithm argument base =>
    exact ⟨.logarithm argument base, by simp [Term.text, logarithmText]⟩
  | marker nonempty ascii =>
    rcases exists_map_digitChar ascii with ⟨_ | ⟨first, others⟩, rfl⟩
    · exact absurd rfl nonempty
    · exact ⟨.marker first others, by rw [Term.text]; rfl⟩
  | @group sign first rest _ _ firstHypothesis restHypothesis =>
    have inBrackets := (wellPowered_cons_iff (by decide)).mp wellPowered
    have row := ((wellPowered_append_cons_iff (by decide)).mp inBrackets).1.row
    rcases firstHypothesis row.1 with ⟨term, rfl⟩
    rcases exists_rest fun item member => restHypothesis item member (row.2 item member) with
      ⟨others, others_eq⟩
    exact ⟨.group sign term others, by rw [Term.text, rowText, others_eq]; rfl⟩

theorem IsRow.exists_chain (isRow : IsRow IsRun text) (wellPowered : WellPowered text) :
    ∃ chain : Chain, text = chain.text := by
  cases isRow with
  | @row sign first rest isFirst isRest =>
    have row := wellPowered.row
    rcases isFirst.exists_term row.1 with ⟨term, rfl⟩
    rcases exists_rest fun item member => (isRest item member).exists_term (row.2 item member) with
      ⟨others, others_eq⟩
    exact ⟨⟨sign, term, others⟩, by rw [rowText, others_eq]; rfl⟩

/-- What is accepted is exactly what a tree spells, up to blank characters and decimal commas; the
formula that comes out is the text without these, and it is accepted again unchanged. -/
theorem canonical_exact (ascii : AsciiDigits (canonicalText raw))
    (wellPowered : WellPowered (canonicalText raw)) :
    ((∃ text, canonical raw = .ok text) ↔ ∃ chain : Chain, canonicalText raw = chain.text) ∧
      ∀ text, canonical raw = .ok text → text = canonicalText raw ∧ canonical text = .ok text := by
  constructor
  · constructor
    · rintro ⟨text, spelled⟩
      rcases canonical_eq_ok_iff.mp spelled with ⟨rfl, accepted⟩
      exact (accepted.isRow ascii).exists_chain wellPowered
    · rintro ⟨chain, chain_eq⟩
      have accepted : Accepted (canonicalText raw) := by
        rw [chain_eq]
        exact chain.accepted
      exact ⟨canonicalText raw, accepted.canonical_eq⟩
  · intro text spelled
    rcases canonical_eq_ok_iff.mp spelled with ⟨rfl, accepted⟩
    exact ⟨rfl, canonical_eq_ok_iff.mpr ⟨(canonicalText_canonicalText raw).symm, accepted⟩⟩

/-- A sign, a power with a decimal comma, a group with a marker in it, and a logarithm. -/
theorem canonical_exact_group :
    ∃ chain : Chain,
      canonicalText " -2,5^2*(\x7b1\x7d+log(8; 2))".toList = chain.text ∧
        canonical chain.text = .ok chain.text := by
  have ascii : AsciiDigits (canonicalText " -2,5^2*(\x7b1\x7d+log(8; 2))".toList) := by
    have each : (canonicalText " -2,5^2*(\x7b1\x7d+log(8; 2))".toList).all
        (fun c => !isDecimalDigit c || isAsciiDigit c) = true := by
      decide +kernel
    intro c member decimal
    simpa [decimal] using List.all_eq_true.mp each c member
  have runs : powerRuns (canonicalText " -2,5^2*(\x7b1\x7d+log(8; 2))".toList) =
      [Numeral.text ⟨2, [], [5]⟩ ++ '^' :: Numeral.text ⟨2, [], []⟩,
        Numeral.text ⟨1, [], []⟩, Numeral.text ⟨8, [], []⟩, Numeral.text ⟨2, [], []⟩] := by
    decide +kernel
  have wellPowered : WellPowered (canonicalText " -2,5^2*(\x7b1\x7d+log(8; 2))".toList) := by
    rw [WellPowered, runs]
    simp only [List.forall_mem_cons]
    exact ⟨.power _ _, .number _, .number _, .number _, nofun⟩
  have exactness := canonical_exact ascii wellPowered
  have spelled : canonical " -2,5^2*(\x7b1\x7d+log(8; 2))".toList =
      .ok "-2.5^2*(\x7b1\x7d+log(8;2))".toList := by
    decide +kernel
  rcases exactness.1.mp ⟨_, spelled⟩ with ⟨chain, chain_eq⟩
  rcases exactness.2 _ spelled with ⟨text_eq, again⟩
  refine ⟨chain, chain_eq, ?_⟩
  rwa [text_eq, chain_eq] at again

end Formulary.Formula
