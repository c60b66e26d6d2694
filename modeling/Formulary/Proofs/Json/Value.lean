import Formulary.Json.Value
import Formulary.Proofs.Json.Token

/-!
# Written values read back

The compact text of a value spells its tokens, and from its tokens the value is built again, inside
any arrays and objects that are open. So a value is read as it was written, if the numbers and the
strings in it are well written (`ofText?_text`).
-/

namespace Formulary.Json

variable {json value item : Json} {items done : List Json} {members : List (List Char × Json)}
  {key : List Char} {frames : List Frame} {rest : List Token}

/-! ## The tokens of a value -/

/-- Rows of tokens with a comma between them. -/
def separatedTokens : List (List Token) → List Token
  | [] => []
  | [tokens] => tokens
  | tokens :: others => tokens ++ .comma :: separatedTokens others

theorem separatedTokens_cons (token : Token) (row : List Token) (others : List (List Token)) :
    separatedTokens ((token :: row) :: others) = token :: separatedTokens (row :: others) := by
  cases others <;> rfl

mutual

/-- The tokens of a value. -/
def tokens : Json → List Token
  | .null => [.null]
  | .bool value => [.bool value]
  | .number text => [.number text]
  | .string written => [.string written]
  | .array items => .openArray :: (separatedTokens (itemTokens items) ++ [.closeArray])
  | .object members => .openObject :: (separatedTokens (memberTokens members) ++ [.closeObject])

/-- The tokens of the values of an array. -/
def itemTokens : List Json → List (List Token)
  | [] => []
  | item :: others => item.tokens :: itemTokens others

/-- The tokens of the members of an object. -/
def memberTokens : List (List Char × Json) → List (List Token)
  | [] => []
  | (key, value) :: others => (.string key :: .colon :: value.tokens) :: memberTokens others

end

/-- The numbers and the strings in a value are written as this library writes them. -/
inductive WellWritten : Json → Prop where
  | null : WellWritten .null
  | bool (value : Bool) : WellWritten (.bool value)
  | number {numeral : Numeral} : numeral.WellFormed → WellWritten (.number numeral.text)
  | string (text : List Char) : WellWritten (.string (escape text))
  | array {items : List Json} : (∀ item ∈ items, WellWritten item) → WellWritten (.array items)
  | object {members : List (List Char × Json)} :
      (∀ key ∈ members.map (·.1), ∃ name, key = escape name) →
        (∀ value ∈ members.map (·.2), WellWritten value) → WellWritten (.object members)

/-! ## Texts as tokens -/

/-- Texts with commas between them spell their tokens with commas between them. -/
theorem spells_separated {texts : List (List Char)} {rows : List (List Token)}
    (spells : List.Forall₂ Spells texts rows) :
    Spells (separated texts) (separatedTokens rows) := by
  induction spells with
  | nil => exact spells_nil
  | cons first others inductionHypothesis =>
    cases others with
    | nil => exact first
    | cons second others => exact first.punctuated rfl inductionHypothesis

theorem spells_items (spells : ∀ item ∈ items, Spells item.text item.tokens) :
    List.Forall₂ Spells (itemTexts items) (itemTokens items) := by
  induction items with
  | nil => exact .nil
  | cons item others inductionHypothesis =>
    rw [List.forall_mem_cons] at spells
    exact .cons spells.1 (inductionHypothesis spells.2)

theorem spells_members (keys : ∀ key ∈ members.map (·.1), ∃ name, key = escape name)
    (spells : ∀ value ∈ members.map (·.2), Spells value.text value.tokens) :
    List.Forall₂ Spells (memberTexts members) (memberTokens members) := by
  induction members with
  | nil => exact .nil
  | cons member others inductionHypothesis =>
    rcases member with ⟨key, value⟩
    rw [List.map_cons, List.forall_mem_cons] at keys spells
    rcases keys.1 with ⟨name, rfl⟩
    exact .cons ((spells_quoted name).punctuated rfl spells.1)
      (inductionHypothesis keys.2 spells.2)

/-- A well-written value is written as its tokens. -/
theorem WellWritten.spells (wellWritten : WellWritten json) : Spells json.text json.tokens := by
  induction wellWritten with
  | null => exact spells_word rfl
  | bool value => cases value <;> exact spells_word rfl
  | number wellFormed => exact spells_number wellFormed
  | string text => exact spells_quoted text
  | array _ inductionHypothesis =>
    have body := spells_separated (spells_items inductionHypothesis)
    exact spells_nil.punctuated rfl (body.punctuated rfl spells_nil)
  | object keys _ inductionHypothesis =>
    have body := spells_separated (spells_members keys inductionHypothesis)
    exact spells_nil.punctuated rfl (body.punctuated rfl spells_nil)

/-! ## Tokens as values -/

/-- The tokens of the value are read as the value, whatever is open before them and follows. -/
def ReadFromTokens (json : Json) : Prop :=
  ∀ frames rest, readValue? frames (json.tokens ++ rest) = resume? json frames rest

/-- The values of an array are read up to its end, behind those that have been read. -/
theorem readValue?_items (reads : ∀ other ∈ item :: items, ReadFromTokens other) :
    readValue? (.array done :: frames)
        (separatedTokens (itemTokens (item :: items)) ++ .closeArray :: rest) =
      resume? (.array (done.reverse ++ item :: items)) frames rest := by
  rw [List.forall_mem_cons] at reads
  induction items generalizing item done with
  | nil =>
    show readValue? _ (item.tokens ++ .closeArray :: rest) = _
    rw [reads.1, resume?, List.reverse_cons]
  | cons next others inductionHypothesis =>
    show readValue? _ ((item.tokens ++ .comma :: separatedTokens (itemTokens (next :: others))) ++
      .closeArray :: rest) = _
    rw [List.append_assoc, List.cons_append, reads.1, resume?,
      inductionHypothesis (List.forall_mem_cons.mp reads.2), List.reverse_cons, List.append_assoc]
    rfl

/-- The members of an object are read up to its end, behind those that have been read. -/
theorem readValue?_members {done : List (List Char × Json)}
    (reads : ∀ other ∈ value :: members.map (·.2), ReadFromTokens other) :
    readValue? (.object done key :: frames)
        (separatedTokens ((value.tokens) :: memberTokens members) ++ .closeObject :: rest) =
      resume? (.object (done.reverse ++ (key, value) :: members)) frames rest := by
  rw [List.forall_mem_cons] at reads
  induction members generalizing key value done with
  | nil =>
    show readValue? _ (value.tokens ++ .closeObject :: rest) = _
    rw [reads.1, resume?, List.reverse_cons]
  | cons next others inductionHypothesis =>
    rcases next with ⟨nextKey, nextValue⟩
    rw [List.map_cons, List.forall_mem_cons] at reads
    show readValue? _ ((value.tokens ++ .comma :: separatedTokens
      ((.string nextKey :: .colon :: nextValue.tokens) :: memberTokens others)) ++
        .closeObject :: rest) = _
    rw [separatedTokens_cons, separatedTokens_cons, List.append_assoc, List.cons_append,
      List.cons_append, List.cons_append, reads.1, resume?, inductionHypothesis reads.2,
      List.reverse_cons, List.append_assoc]
    rfl

/-- No value begins with the end of an array. -/
theorem exists_tokens_eq_cons (json : Json) :
    ∃ first others, json.tokens = first :: others ∧ first ≠ .closeArray := by
  cases json
  all_goals
    refine ⟨_, _, rfl, ?_⟩
    exact nofun

theorem exists_itemTokens_eq_cons (item : Json) (items : List Json) :
    ∃ first others, separatedTokens (itemTokens (item :: items)) = first :: others ∧
      first ≠ .closeArray := by
  rcases exists_tokens_eq_cons item with ⟨first, others, tokens_eq, notClosing⟩
  rw [itemTokens, tokens_eq, separatedTokens_cons]
  exact ⟨first, _, rfl, notClosing⟩

theorem readFromTokens_array (reads : ∀ item ∈ items, ReadFromTokens item) :
    ReadFromTokens (.array items) := by
  intro frames rest
  rw [tokens, List.cons_append, List.append_assoc, List.singleton_append]
  cases items with
  | nil =>
    show readValue? frames (.openArray :: .closeArray :: rest) = _
    rw [readValue?]
  | cons item others =>
    -- The first item does not close the array, so the scan goes on to read it.
    rcases exists_itemTokens_eq_cons item others with ⟨first, behind, tokens_eq, notClosing⟩
    rw [readValue?, readValue?_items reads]
    · rfl
    · intro after tokensAre
      rw [tokens_eq] at tokensAre
      cases tokensAre
      exact notClosing rfl

theorem readFromTokens_object (reads : ∀ value ∈ members.map (·.2), ReadFromTokens value) :
    ReadFromTokens (.object members) := by
  intro frames rest
  rw [tokens, List.cons_append, List.append_assoc, List.singleton_append]
  cases members with
  | nil =>
    show readValue? frames (.openObject :: .closeObject :: rest) = _
    rw [readValue?]
  | cons member others =>
    rcases member with ⟨key, value⟩
    rw [memberTokens, separatedTokens_cons, separatedTokens_cons, List.cons_append,
      List.cons_append, readValue?, readValue?_members reads]
    rfl

theorem WellWritten.readFromTokens (wellWritten : WellWritten json) : ReadFromTokens json := by
  induction wellWritten with
  | null => intro frames rest; rfl
  | bool value => intro frames rest; rfl
  | number wellFormed => intro frames rest; rfl
  | string text => intro frames rest; rfl
  | array _ inductionHypothesis => exact readFromTokens_array inductionHypothesis
  | object _ _ inductionHypothesis => exact readFromTokens_object inductionHypothesis

/-- A well-written value is read as it is written. -/
theorem ofText?_text (wellWritten : WellWritten json) : ofText? json.text = some json := by
  have read := wellWritten.readFromTokens [] []
  rw [List.append_nil] at read
  rw [ofText?, wellWritten.spells.tokens?_eq, Option.bind_some, read]
  rfl

end Formulary.Json
