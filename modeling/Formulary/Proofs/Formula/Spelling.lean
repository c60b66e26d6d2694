import Formulary.Proofs.Formula.Filling
import Formulary.Proofs.Formula.Run

/-!
# How rows are spelled

A formula is a row of terms whose runs of digits and points may be any that are allowed. With values
in place of its markers such a text parses if its runs are numbers, whatever the values are, and
only then.
-/

namespace Formulary.Formula

open Text

/-! ## Terms and rows -/

/-- The text of a term: powers of allowed runs, a logarithm of two numbers, a marker, or a row in
brackets. -/
inductive IsTerm (allowed : List Char → Prop) : List Char → Prop where
  | powers {text : List Char} : IsPowers allowed text → IsTerm allowed text
  | logarithm (argument base : Numeral) : IsTerm allowed (logarithmText argument.text base.text)
  | marker {digits : List Char} :
      digits ≠ [] → (∀ c ∈ digits, isAsciiDigit c = true) →
        IsTerm allowed ('{' :: (digits ++ ['}']))
  | group {sign : Option Bool} {first : List Char} {rest : Operands (List Char)} :
      IsTerm allowed first → (∀ item ∈ rest, IsTerm allowed item.2) →
        IsTerm allowed ('(' :: (rowText sign first rest ++ [')']))

/-- The text of a row: terms with operators between them, and perhaps a sign before the first. -/
inductive IsRow (allowed : List Char → Prop) : List Char → Prop where
  | row {sign : Option Bool} {first : List Char} {rest : Operands (List Char)} :
      IsTerm allowed first → (∀ item ∈ rest, IsTerm allowed item.2) →
        IsRow allowed (rowText sign first rest)

variable {allowed other : List Char → Prop} {policy : SplitPolicy}
  {text left right first digits : List Char} {rest : Operands (List Char)}

theorem IsTerm.mono (isTerm : IsTerm allowed text) (weaker : ∀ run, allowed run → other run) :
    IsTerm other text := by
  induction isTerm with
  | powers isPowers => exact .powers (isPowers.mono weaker)
  | logarithm argument base => exact .logarithm argument base
  | marker nonempty ascii => exact .marker nonempty ascii
  | group _ _ firstHypothesis restHypothesis => exact .group firstHypothesis restHypothesis

theorem infix_operandsText {item : Operator × List Char} (member : item ∈ rest) :
    item.2 <:+: operandsText rest := by
  rcases List.append_of_mem member with ⟨before, after, rfl⟩
  exact ⟨operandsText before ++ [item.1.symbol], operandsText after, by
    simp [operandsText_append, operandsText]⟩

/-- The operands of a row stand in its text. -/
theorem infix_rowText (sign : Option Bool) (first : List Char) (rest : Operands (List Char)) :
    first <:+: rowText sign first rest ∧ ∀ item ∈ rest, item.2 <:+: rowText sign first rest :=
  ⟨⟨signText sign, operandsText rest, rfl⟩, fun _ member =>
    (infix_operandsText member).trans (List.suffix_append _ _).isInfix⟩

/-- The runs of a term stand in its text. -/
theorem IsTerm.within (isTerm : IsTerm allowed text) :
    IsTerm (fun run => allowed run ∧ run <:+: text) text := by
  have moved : ∀ {part whole}, part <:+: whole →
      IsTerm (fun run => allowed run ∧ run <:+: part) part →
        IsTerm (fun run => allowed run ∧ run <:+: whole) part := fun isInfix isTerm =>
    isTerm.mono fun _ ⟨isRun, isWithin⟩ => ⟨isRun, isWithin.trans isInfix⟩
  induction isTerm with
  | powers isPowers => exact .powers isPowers.within
  | logarithm argument base => exact .logarithm argument base
  | marker nonempty ascii => exact .marker nonempty ascii
  | @group sign first rest _ _ firstHypothesis restHypothesis =>
    have inBrackets : rowText sign first rest <:+: '(' :: (rowText sign first rest ++ [')']) :=
      ⟨['('], [')'], rfl⟩
    rcases infix_rowText sign first rest with ⟨firstWithin, restWithin⟩
    exact .group (moved (firstWithin.trans inBrackets) firstHypothesis) fun item member =>
      moved ((restWithin item member).trans inBrackets) (restHypothesis item member)

/-- The runs of a row stand in its text, and if they are of some kind the row is one of that
kind. -/
theorem IsRow.of_within (isRow : IsRow allowed text)
    (each : ∀ run, allowed run → run <:+: text → other run) : IsRow other text := by
  cases isRow with
  | @row sign first rest isFirst isRest =>
    rcases infix_rowText sign first rest with ⟨firstWithin, restWithin⟩
    exact .row (isFirst.within.mono fun run ⟨isRun, isWithin⟩ =>
        each run isRun (isWithin.trans firstWithin)) fun item member =>
      (isRest item member).within.mono fun run ⟨isRun, isWithin⟩ =>
        each run isRun (isWithin.trans (restWithin item member))

/-! ## Segments of terms -/

/-- No marker that begins in the text ends behind it. -/
def Closed (text : List Char) : Prop :=
  ∀ after, segments (text ++ after) = segments text ++ segments after

theorem Closed.append (before : Closed left) (after : Closed right) : Closed (left ++ right) := by
  intro behind
  rw [List.append_assoc, before, after, before, List.append_assoc]

theorem segments_append_of_plain (plain : ∀ c ∈ text, c ≠ '{') (after : List Char) :
    segments (text ++ after) = text.map .plain ++ segments after := by
  induction text with
  | nil => rfl
  | cons c rest inductionHypothesis =>
    rw [List.cons_append, segments_cons (plain c List.mem_cons_self),
      inductionHypothesis fun other member => plain other (List.mem_cons_of_mem _ member)]
    rfl

theorem segments_of_plain (plain : ∀ c ∈ text, c ≠ '{') : segments text = text.map .plain := by
  have whole := segments_append_of_plain plain []
  rwa [List.append_nil, segments, List.append_nil] at whole

theorem closed_of_plain (plain : ∀ c ∈ text, c ≠ '{') : Closed text := by
  intro after
  rw [segments_append_of_plain plain, segments_of_plain plain]

theorem BeginsWithMarker.closed (begins : BeginsWithMarker text digits []) : Closed text := by
  intro after
  rw [(begins.append after).segments_eq, begins.segments_eq, segments]
  rfl

theorem segments_of_marker (nonempty : digits ≠ [])
    (ascii : ∀ c ∈ digits, isAsciiDigit c = true) :
    segments ('{' :: (digits ++ ['}'])) = [.marker digits] := by
  rw [(beginsWithMarker_of_ascii nonempty ascii []).segments_eq, segments]

theorem plain_signText (sign : Option Bool) : ∀ c ∈ signText sign, c ≠ '{' := by
  rcases sign with _ | _ | _ <;> simp [signText]

theorem plain_symbol (operator : Operator) : ∀ c ∈ [operator.symbol], c ≠ '{' := by
  cases operator <;> simp [Operator.symbol]

theorem closed_operandsText (closed : ∀ item ∈ rest, Closed item.2) :
    Closed (operandsText rest) := by
  induction rest with
  | nil => exact fun _ => by simp [operandsText, segments]
  | cons item rest inductionHypothesis =>
    exact (closed_of_plain (plain_symbol item.1)).append ((closed item List.mem_cons_self).append
      (inductionHypothesis fun other member => closed other (List.mem_cons_of_mem _ member)))

theorem closed_rowText (sign : Option Bool) (firstClosed : Closed first)
    (closed : ∀ item ∈ rest, Closed item.2) : Closed (rowText sign first rest) :=
  ((closed_of_plain (plain_signText sign)).append firstClosed).append (closed_operandsText closed)

theorem IsPowers.plain (isPowers : IsPowers IsRun text) : ∀ c ∈ text, c ≠ '{' :=
  fun _ member => isPowers.ne_of_mem member (by decide) (by decide)

theorem plain_logarithm (argument base : Numeral) :
    ∀ c ∈ logarithmText argument.text base.text, c ≠ '{' := by
  intro c member
  simp only [logarithmText, List.mem_cons, List.mem_append, List.not_mem_nil, or_false] at member
  rcases member with rfl | rfl | rfl | rfl | (inArgument | rfl | inBase) | rfl
  any_goals decide
  · exact argument.literal.ne_opening c inArgument
  · exact base.literal.ne_opening c inBase

theorem IsTerm.closed (isTerm : IsTerm IsRun text) : Closed text := by
  induction isTerm with
  | powers isPowers => exact closed_of_plain isPowers.plain
  | logarithm argument base => exact closed_of_plain (plain_logarithm argument base)
  | marker nonempty ascii => exact (beginsWithMarker_of_ascii nonempty ascii []).closed
  | group _ _ firstHypothesis restHypothesis =>
    have opening : Closed ['('] := closed_of_plain (by simp)
    have closing : Closed [')'] := closed_of_plain (by simp)
    exact opening.append ((closed_rowText _ firstHypothesis restHypothesis).append closing)

/-! ## Values for the markers of terms -/

/-- A text with every marker replaced by its value. -/
def fill (valueOf : Int → Option Float) (text : List Char) : List Char :=
  substitute valueOf (segments text)

/-- The texts of operands with every marker replaced by its value. -/
def fillRest (valueOf : Int → Option Float) (rest : Operands (List Char)) : Operands (List Char) :=
  rest.map fun item => (item.1, fill valueOf item.2)

/-- Every marker of a text names an identity that has a value. -/
def Given (valueOf : Int → Option Float) (text : List Char) : Prop :=
  ∀ digits, .marker digits ∈ segments text → ∃ value, (markerId? digits).bind valueOf = some value

variable {valueOf : Int → Option Float}

theorem fill_append (closed : Closed left) (right : List Char) :
    fill valueOf (left ++ right) = fill valueOf left ++ fill valueOf right := by
  rw [fill, closed right, substitute, List.flatMap_append]
  rfl

theorem fill_of_plain (plain : ∀ c ∈ text, c ≠ '{') : fill valueOf text = text := by
  rw [fill, segments_of_plain plain, substitute, List.flatMap_map]
  exact List.flatMap_singleton' text

theorem forall_mem_fillRest {property : List Char → Prop} :
    (∀ item ∈ fillRest valueOf rest, property item.2) ↔
      ∀ item ∈ rest, property (fill valueOf item.2) :=
  List.forall_mem_map

theorem fill_operandsText (closed : ∀ item ∈ rest, Closed item.2) :
    fill valueOf (operandsText rest) = operandsText (fillRest valueOf rest) := by
  induction rest with
  | nil => exact fill_of_plain (by simp [operandsText])
  | cons item rest inductionHypothesis =>
    have symbolPlain := plain_symbol item.1
    show fill valueOf ([item.1.symbol] ++ (item.2 ++ operandsText rest)) = _
    rw [fill_append (closed_of_plain symbolPlain), fill_of_plain symbolPlain,
      fill_append (closed item List.mem_cons_self),
      inductionHypothesis fun other member => closed other (List.mem_cons_of_mem _ member)]
    rfl

theorem fill_rowText {sign : Option Bool} (firstClosed : Closed first)
    (closed : ∀ item ∈ rest, Closed item.2) :
    fill valueOf (rowText sign first rest) =
      rowText sign (fill valueOf first) (fillRest valueOf rest) := by
  have signPlain := plain_signText sign
  rw [rowText, rowText, List.append_assoc, fill_append (closed_of_plain signPlain),
    fill_of_plain signPlain, fill_append firstClosed, fill_operandsText closed, List.append_assoc]

theorem fill_group {inner : List Char} (closed : Closed inner) :
    fill valueOf ('(' :: (inner ++ [')'])) = '(' :: (fill valueOf inner ++ [')']) := by
  have opening : ∀ c ∈ ['('], c ≠ '{' := by simp
  have closing : ∀ c ∈ [')'], c ≠ '{' := by simp
  show fill valueOf (['('] ++ (inner ++ [')'])) = _
  rw [fill_append (closed_of_plain opening), fill_of_plain opening, fill_append closed,
    fill_of_plain closing]
  rfl

theorem fill_marker (nonempty : digits ≠ []) (ascii : ∀ c ∈ digits, isAsciiDigit c = true)
    {value : Float} (given : (markerId? digits).bind valueOf = some value) :
    fill valueOf ('{' :: (digits ++ ['}'])) = valueText value := by
  rw [fill, segments_of_marker nonempty ascii]
  simp [substitute, given]

theorem given_append_iff (closed : Closed left) :
    Given valueOf (left ++ right) ↔ Given valueOf left ∧ Given valueOf right := by
  simp only [Given, closed right, List.mem_append, or_imp, forall_and]

theorem given_cons_iff {c : Char} (notOpening : c ≠ '{') :
    Given valueOf (c :: right) ↔ Given valueOf right := by
  simp [Given, segments_cons notOpening]

theorem given_of_operandsText (closed : ∀ item ∈ rest, Closed item.2)
    (given : Given valueOf (operandsText rest)) : ∀ item ∈ rest, Given valueOf item.2 := by
  induction rest with
  | nil => simp
  | cons item rest inductionHypothesis =>
    have notOpening := plain_symbol item.1 _ (List.mem_singleton_self _)
    rw [operandsText, given_cons_iff notOpening,
      given_append_iff (closed item List.mem_cons_self)] at given
    intro other member
    rcases List.mem_cons.mp member with rfl | member
    · exact given.1
    · exact inductionHypothesis (fun next inRest => closed next (List.mem_cons_of_mem _ inRest))
        given.2 other member

/-- The terms of a row have values for their markers if the row has. -/
theorem given_of_rowText {sign : Option Bool} (given : Given valueOf (rowText sign first rest))
    (firstClosed : Closed first) (closed : ∀ item ∈ rest, Closed item.2) :
    Given valueOf first ∧ ∀ item ∈ rest, Given valueOf item.2 := by
  rw [rowText, List.append_assoc, given_append_iff (closed_of_plain (plain_signText sign)),
    given_append_iff firstClosed] at given
  exact ⟨given.2.1, given_of_operandsText closed given.2.2⟩

theorem given_of_group {inner : List Char} (given : Given valueOf ('(' :: (inner ++ [')'])))
    (closed : Closed inner) : Given valueOf inner := by
  rw [given_cons_iff (by decide), given_append_iff closed] at given
  exact given.1

/-! ## Terms and rows that parse -/

theorem given_of_marker (nonempty : digits ≠ []) (ascii : ∀ c ∈ digits, isAsciiDigit c = true)
    (given : Given valueOf ('{' :: (digits ++ ['}']))) :
    ∃ value, (markerId? digits).bind valueOf = some value := by
  apply given digits
  rw [segments_of_marker nonempty ascii]
  exact List.mem_singleton_self _

/-- With its values filled in a term is an operand. -/
theorem IsTerm.operandText (isTerm : IsTerm IsRun text) (given : Given valueOf text) :
    OperandText (fill valueOf text) := by
  induction isTerm with
  | powers isPowers =>
    rw [fill_of_plain isPowers.plain]
    exact isPowers.operandText
  | logarithm argument base =>
    rw [fill_of_plain (plain_logarithm argument base)]
    exact operandText_logarithm argument.literal base.literal
  | marker nonempty ascii =>
    rcases given_of_marker nonempty ascii given with ⟨value, found⟩
    have standing : Standing .legacy (valueText value) _ := standing_valueText value
    rw [fill_marker nonempty ascii found]
    exact standing.operandText
  | @group sign first rest isFirst isRest firstHypothesis restHypothesis =>
    have firstClosed := isFirst.closed
    have closed := fun item member => (isRest item member).closed
    have rowClosed := closed_rowText sign firstClosed closed
    rcases given_of_rowText (given_of_group given rowClosed) firstClosed closed with
      ⟨firstGiven, restGiven⟩
    rw [fill_group rowClosed, fill_rowText firstClosed closed]
    have texts : ∀ item ∈ fillRest valueOf rest, OperandText item.2 :=
      forall_mem_fillRest.mpr fun item member => restHypothesis item member (restGiven item member)
    exact operandText_group (enclosed_rowText (firstHypothesis firstGiven) texts)

section

variable {sign outer : Option Bool} (isFirst : IsTerm IsRun first)
  (isRest : ∀ item ∈ rest, IsTerm IsRun item.2)

include isFirst isRest

theorem closed_row : Closed (rowText sign first rest) :=
  closed_rowText sign isFirst.closed fun item member => (isRest item member).closed

theorem fill_row :
    fill valueOf (rowText sign first rest) =
      rowText sign (fill valueOf first) (fillRest valueOf rest) :=
  fill_rowText isFirst.closed fun item member => (isRest item member).closed

theorem given_row (given : Given valueOf (rowText sign first rest)) :
    Given valueOf first ∧ ∀ item ∈ rest, Given valueOf item.2 :=
  given_of_rowText given isFirst.closed fun item member => (isRest item member).closed

theorem operandText_row (given : Given valueOf (rowText sign first rest)) :
    OperandText (fill valueOf first) ∧ ∀ item ∈ fillRest valueOf rest, OperandText item.2 := by
  rcases given_row isFirst isRest given with ⟨firstGiven, restGiven⟩
  exact ⟨isFirst.operandText firstGiven, forall_mem_fillRest.mpr fun item member =>
    (isRest item member).operandText (restGiven item member)⟩

/-- With its values filled in a row parses exactly if its terms do. -/
theorem parses_fill_row_iff (given : Given valueOf (rowText sign first rest)) :
    Parses policy (fill valueOf (rowText sign first rest)) ↔
      Parses policy (signText sign ++ fill valueOf first) ∧
        ∀ item ∈ rest, Parses policy (fill valueOf item.2) := by
  rcases operandText_row isFirst isRest given with ⟨firstText, texts⟩
  rw [fill_row isFirst isRest, parses_rowText_iff firstText texts, forall_mem_fillRest]

/-- Brackets around a row parse exactly if its terms do, also behind a sign. -/
theorem parses_fill_group_iff (given : Given valueOf (rowText sign first rest)) :
    Parses policy (signText outer ++ fill valueOf ('(' :: (rowText sign first rest ++ [')']))) ↔
      Parses policy (signText sign ++ fill valueOf first) ∧
        ∀ item ∈ rest, Parses policy (fill valueOf item.2) := by
  rcases operandText_row isFirst isRest given with ⟨firstText, texts⟩
  rw [← parses_fill_row_iff isFirst isRest given, fill_group (closed_row isFirst isRest),
    fill_row isFirst isRest]
  exact parses_group_iff (enclosed_rowText firstText texts) outer

end

theorem IsTerm.isRun (isTerm : IsTerm IsNumeral text) : IsTerm IsRun text :=
  isTerm.mono fun _ => IsNumeral.isRun

/-- A term whose runs are numbers parses with any values, also behind a sign. -/
theorem IsTerm.parses (isTerm : IsTerm IsNumeral text) (given : Given valueOf text)
    (sign : Option Bool) : Parses policy (signText sign ++ fill valueOf text) := by
  induction isTerm generalizing sign with
  | powers isPowers =>
    rw [fill_of_plain (isPowers.mono fun _ => IsNumeral.isRun).plain]
    exact isPowers.parses sign
  | logarithm argument base =>
    rw [fill_of_plain (plain_logarithm argument base)]
    exact ((standing_logarithm argument.literal base.literal).settles sign).parses
  | marker nonempty ascii =>
    rcases given_of_marker nonempty ascii given with ⟨value, found⟩
    rw [fill_marker nonempty ascii found]
    exact ((standing_valueText value).settles sign).parses
  | @group inner first rest isFirst isRest firstHypothesis restHypothesis =>
    have firstRuns := isFirst.isRun
    have restRuns := fun item member => (isRest item member).isRun
    have rowGiven := given_of_group given (closed_row firstRuns restRuns)
    rcases given_row firstRuns restRuns rowGiven with ⟨firstGiven, restGiven⟩
    exact (parses_fill_group_iff firstRuns restRuns rowGiven).mpr
      ⟨firstHypothesis firstGiven inner,
        fun item member => restHypothesis item member (restGiven item member) none⟩

/-- A term parses with some values only if its runs are numbers. -/
theorem IsTerm.of_parses (isTerm : IsTerm IsRun text) (given : Given valueOf text)
    (sign : Option Bool) (parses : Parses policy (signText sign ++ fill valueOf text)) :
    IsTerm IsNumeral text := by
  induction isTerm generalizing sign with
  | powers isPowers =>
    rw [fill_of_plain isPowers.plain] at parses
    exact .powers (isPowers.of_parses sign parses)
  | logarithm argument base => exact .logarithm argument base
  | marker nonempty ascii => exact .marker nonempty ascii
  | @group inner first rest isFirst isRest firstHypothesis restHypothesis =>
    have rowGiven := given_of_group given (closed_row isFirst isRest)
    rcases given_row isFirst isRest rowGiven with ⟨firstGiven, restGiven⟩
    rcases (parses_fill_group_iff isFirst isRest rowGiven).mp parses with
      ⟨firstParses, restParses⟩
    exact .group (firstHypothesis firstGiven inner firstParses) fun item member =>
      restHypothesis item member (restGiven item member) none (restParses item member)

/-- A row whose runs are numbers parses with any values. -/
theorem IsRow.parses (isRow : IsRow IsNumeral text) (given : Given valueOf text) :
    Parses policy (fill valueOf text) := by
  cases isRow with
  | row isFirst isRest =>
    have firstRuns := isFirst.isRun
    have restRuns := fun item member => (isRest item member).isRun
    rcases given_row firstRuns restRuns given with ⟨firstGiven, restGiven⟩
    exact (parses_fill_row_iff firstRuns restRuns given).mpr ⟨isFirst.parses firstGiven _,
      fun item member => (isRest item member).parses (restGiven item member) none⟩

/-- A row parses with some values only if its runs are numbers. -/
theorem IsRow.of_parses (isRow : IsRow IsRun text) (given : Given valueOf text)
    (parses : Parses policy (fill valueOf text)) : IsRow IsNumeral text := by
  cases isRow with
  | row isFirst isRest =>
    rcases given_row isFirst isRest given with ⟨firstGiven, restGiven⟩
    rcases (parses_fill_row_iff isFirst isRest given).mp parses with ⟨firstParses, restParses⟩
    exact .row (isFirst.of_parses firstGiven _ firstParses) fun item member =>
      (isRest item member).of_parses (restGiven item member) none (restParses item member)

end Formulary.Formula
