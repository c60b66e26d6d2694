import Formulary.Text.Character

/-!
# Regular patterns

A pattern describes a set of texts: the relation `Matches` says which. Whether a text belongs to it
is decided by reading the text once. After each character one keeps the patterns that may describe
what is left of the text, the residuals; the text belongs to the pattern if one of them admits the
empty text when nothing is left.

The main statement, `accepts_iff`, says that exactly the texts of a pattern are accepted.
-/

namespace Formulary.Text

/-- What one character of a pattern may be. -/
inductive Symbol where
  /-- This character and no other. -/
  | char (c : Char)
  /-- A decimal digit of any script. -/
  | digit
  deriving DecidableEq

/-- Whether a character is one that the symbol stands for. -/
def Symbol.admits : Symbol → Char → Bool
  | .char expected, c => c == expected
  | .digit, c => isDecimalDigit c

/-- A regular pattern. -/
inductive Pattern where
  /-- The empty text. -/
  | blank
  /-- One character. -/
  | one (symbol : Symbol)
  /-- A text of the first pattern and then one of the second. -/
  | seq (first second : Pattern)
  /-- A text of one of the two patterns. -/
  | either (left right : Pattern)
  /-- Any number of texts of the pattern, one after the other. -/
  | many (body : Pattern)
  deriving DecidableEq

namespace Pattern

/-- The texts of a pattern. -/
inductive Matches : Pattern → List Char → Prop where
  | blank : Matches .blank []
  | one {symbol : Symbol} {c : Char} : symbol.admits c = true → Matches (.one symbol) [c]
  | seq {first second : Pattern} {left right : List Char} :
      Matches first left → Matches second right → Matches (.seq first second) (left ++ right)
  | left {first second : Pattern} {text : List Char} :
      Matches first text → Matches (.either first second) text
  | right {first second : Pattern} {text : List Char} :
      Matches second text → Matches (.either first second) text
  | stop {body : Pattern} : Matches (.many body) []
  | more {body : Pattern} {left right : List Char} :
      Matches body left → Matches (.many body) right → Matches (.many body) (left ++ right)

/-- Whether the empty text belongs to the pattern. -/
def admitsEmpty : Pattern → Bool
  | .blank => true
  | .one _ => false
  | .seq first second => first.admitsEmpty && second.admitsEmpty
  | .either left right => left.admitsEmpty || right.admitsEmpty
  | .many _ => true

/-- The patterns that may describe the rest of a text after its first character. -/
def residuals (c : Char) : Pattern → List Pattern
  | .blank => []
  | .one symbol => if symbol.admits c then [.blank] else []
  | .seq first second =>
    (first.residuals c).map (.seq · second) ++
      if first.admitsEmpty then second.residuals c else []
  | .either left right => left.residuals c ++ right.residuals c
  | .many body => (body.residuals c).map (.seq · (.many body))

/-- The residuals of several patterns after a whole text, each kept once. -/
def advance : List Pattern → List Char → List Pattern
  | patterns, [] => patterns
  | patterns, c :: rest => advance (patterns.flatMap (residuals c)).eraseDups rest

/-- Whether a text belongs to the pattern. -/
def accepts (pattern : Pattern) (text : List Char) : Bool :=
  (advance [pattern] text).any admitsEmpty

/-! ## What is accepted -/

/-- A pattern of one character has the texts of one character that it stands for. -/
theorem matches_one_iff {symbol : Symbol} {text : List Char} :
    Matches (.one symbol) text ↔ ∃ c, text = [c] ∧ symbol.admits c = true := by
  constructor
  · intro belongs
    cases belongs with
    | one admitted => exact ⟨_, rfl, admitted⟩
  · rintro ⟨c, rfl, admitted⟩
    exact .one admitted

/-- A text of a sequence is a text of its first part and then one of its second. -/
theorem matches_seq_iff {first second : Pattern} {text : List Char} :
    Matches (.seq first second) text ↔
      ∃ left right, text = left ++ right ∧ Matches first left ∧ Matches second right := by
  constructor
  · intro belongs
    cases belongs with
    | seq belongsLeft belongsRight => exact ⟨_, _, rfl, belongsLeft, belongsRight⟩
  · rintro ⟨left, right, rfl, belongsLeft, belongsRight⟩
    exact .seq belongsLeft belongsRight

/-- A text of a choice is a text of one of its two sides. -/
theorem matches_either_iff {first second : Pattern} {text : List Char} :
    Matches (.either first second) text ↔ Matches first text ∨ Matches second text := by
  constructor
  · intro belongs
    cases belongs with
    | left belongs => exact .inl belongs
    | right belongs => exact .inr belongs
  · rintro (belongs | belongs)
    · exact .left belongs
    · exact .right belongs

/-- The empty text belongs to a pattern exactly if the pattern admits it. -/
theorem admitsEmpty_iff {pattern : Pattern} : pattern.admitsEmpty = true ↔ Matches pattern [] := by
  induction pattern with
  | blank => exact ⟨fun _ => .blank, fun _ => rfl⟩
  | one symbol => simp [admitsEmpty, matches_one_iff]
  | seq first second ihFirst ihSecond =>
    simp only [admitsEmpty, Bool.and_eq_true, ihFirst, ihSecond, matches_seq_iff]
    constructor
    · rintro ⟨belongsLeft, belongsRight⟩
      exact ⟨[], [], rfl, belongsLeft, belongsRight⟩
    · rintro ⟨left, right, empty, belongsLeft, belongsRight⟩
      obtain ⟨rfl, rfl⟩ := List.append_eq_nil_iff.1 empty.symm
      exact ⟨belongsLeft, belongsRight⟩
  | either left right ihLeft ihRight =>
    simp only [admitsEmpty, Bool.or_eq_true, ihLeft, ihRight, matches_either_iff]
  | many body _ => exact ⟨fun _ => .stop, fun _ => rfl⟩

/-- A text of a repeated pattern that is not empty begins with a text of the pattern that is not
empty. -/
theorem matches_many_cons_iff {body : Pattern} {c : Char} {rest : List Char} :
    Matches (.many body) (c :: rest) ↔
      ∃ left right, rest = left ++ right ∧ Matches body (c :: left) ∧ Matches (.many body) right := by
  constructor
  · intro belongs
    generalize whole : c :: rest = text at belongs
    generalize pattern_eq : Pattern.many body = pattern at belongs
    induction belongs with
    | stop => cases whole
    | @more inner left right belongsLeft belongsRight _ inductionHypothesis =>
      cases pattern_eq
      cases left with
      | nil => exact inductionHypothesis whole rfl
      | cons first left =>
        obtain ⟨rfl, rfl⟩ := List.cons.inj whole
        exact ⟨left, right, rfl, belongsLeft, belongsRight⟩
    | _ => cases pattern_eq
  · rintro ⟨left, right, rfl, belongsLeft, belongsRight⟩
    exact .more belongsLeft belongsRight

/-- The residuals of a pattern describe what may follow its first character. -/
theorem exists_residual_iff {pattern : Pattern} {c : Char} {rest : List Char} :
    (∃ residual ∈ pattern.residuals c, Matches residual rest) ↔ Matches pattern (c :: rest) := by
  induction pattern generalizing rest with
  | blank =>
    simp only [residuals, List.not_mem_nil, false_and, exists_false, false_iff]
    intro belongs
    cases belongs
  | one symbol =>
    rw [matches_one_iff, residuals]
    split
    · rename_i admitted
      simp only [List.mem_singleton, exists_eq_left, List.cons.injEq]
      constructor
      · intro belongs
        cases belongs with
        | blank => exact ⟨c, ⟨rfl, rfl⟩, admitted⟩
      · rintro ⟨_, ⟨rfl, rfl⟩, _⟩
        exact .blank
    · rename_i refused
      simp only [List.not_mem_nil, false_and, exists_false, List.cons.injEq, false_iff]
      rintro ⟨_, ⟨rfl, rfl⟩, admitted⟩
      exact refused admitted
  | seq first second ihFirst ihSecond =>
    simp only [residuals, List.mem_append, List.mem_map]
    rw [matches_seq_iff]
    constructor
    · rintro ⟨residual, ⟨inner, member, rfl⟩ | member, belongs⟩
      · obtain ⟨left, right, rfl, belongsLeft, belongsRight⟩ := matches_seq_iff.1 belongs
        exact ⟨c :: left, right, rfl, ihFirst.1 ⟨inner, member, belongsLeft⟩, belongsRight⟩
      · split at member
        · rename_i empty
          exact ⟨[], c :: rest, rfl, admitsEmpty_iff.1 empty, ihSecond.1 ⟨residual, member, belongs⟩⟩
        · cases member
    · rintro ⟨left, right, whole, belongsLeft, belongsRight⟩
      cases left with
      | nil =>
        rw [List.nil_append] at whole
        subst whole
        obtain ⟨residual, member, belongs⟩ := ihSecond.2 belongsRight
        refine ⟨residual, .inr ?_, belongs⟩
        rwa [if_pos (admitsEmpty_iff.2 belongsLeft)]
      | cons first left =>
        obtain ⟨rfl, rfl⟩ := List.cons.inj whole
        obtain ⟨inner, member, belongs⟩ := ihFirst.2 belongsLeft
        exact ⟨_, .inl ⟨inner, member, rfl⟩, .seq belongs belongsRight⟩
  | either left right ihLeft ihRight =>
    rw [matches_either_iff, ← ihLeft, ← ihRight]
    simp only [residuals, List.mem_append]
    constructor
    · rintro ⟨residual, member | member, belongs⟩
      · exact .inl ⟨residual, member, belongs⟩
      · exact .inr ⟨residual, member, belongs⟩
    · rintro (⟨residual, member, belongs⟩ | ⟨residual, member, belongs⟩)
      · exact ⟨residual, .inl member, belongs⟩
      · exact ⟨residual, .inr member, belongs⟩
  | many body inductionHypothesis =>
    simp only [residuals, List.mem_map]
    rw [matches_many_cons_iff]
    constructor
    · rintro ⟨_, ⟨inner, member, rfl⟩, belongs⟩
      obtain ⟨left, right, rfl, belongsLeft, belongsRight⟩ := matches_seq_iff.1 belongs
      exact ⟨left, right, rfl, inductionHypothesis.1 ⟨inner, member, belongsLeft⟩, belongsRight⟩
    · rintro ⟨left, right, rfl, belongsLeft, belongsRight⟩
      obtain ⟨inner, member, belongs⟩ := inductionHypothesis.2 belongsLeft
      exact ⟨_, ⟨inner, member, rfl⟩, .seq belongs belongsRight⟩

/-- After a whole text the patterns kept admit the empty text exactly if one of the patterns at the
beginning describes the text. -/
theorem any_advance_iff {patterns : List Pattern} {text : List Char} :
    (advance patterns text).any admitsEmpty = true ↔ ∃ pattern ∈ patterns, Matches pattern text := by
  induction text generalizing patterns with
  | nil => simp only [advance, List.any_eq_true, admitsEmpty_iff]
  | cons c rest inductionHypothesis =>
    rw [advance, inductionHypothesis]
    simp only [List.mem_eraseDups, List.mem_flatMap, ← exists_residual_iff]
    constructor
    · rintro ⟨residual, ⟨pattern, member, inner⟩, belongs⟩
      exact ⟨pattern, member, residual, inner, belongs⟩
    · rintro ⟨pattern, member, residual, inner, belongs⟩
      exact ⟨residual, ⟨pattern, member, inner⟩, belongs⟩

/-- A pattern accepts exactly its texts. -/
theorem accepts_iff {pattern : Pattern} {text : List Char} :
    pattern.accepts text = true ↔ Matches pattern text := by
  rw [accepts, any_advance_iff]
  simp

/-! ## Patterns built from others -/

/-- This text and no other. -/
def literal : List Char → Pattern
  | [] => .blank
  | c :: rest => .seq (.one (.char c)) (literal rest)

/-- A text of the pattern, or nothing. -/
def optional (pattern : Pattern) : Pattern :=
  .either .blank pattern

/-- One or more texts of the pattern. -/
def repeated (pattern : Pattern) : Pattern :=
  .seq pattern (.many pattern)

/-- One of these characters. -/
def oneOf : (first : Char) → (others : List Char) → Pattern
  | first, [] => .one (.char first)
  | first, second :: others => .either (.one (.char first)) (oneOf second others)

/-- A text of a literal is the text it is made from. -/
theorem matches_literal_iff {word text : List Char} : Matches (literal word) text ↔ text = word := by
  induction word generalizing text with
  | nil =>
    constructor
    · intro belongs
      cases belongs
      rfl
    · rintro rfl
      exact .blank
  | cons c rest inductionHypothesis =>
    simp only [literal, matches_seq_iff, matches_one_iff, inductionHypothesis, Symbol.admits,
      beq_iff_eq]
    constructor
    · rintro ⟨_, _, rfl, ⟨_, rfl, rfl⟩, rfl⟩
      rfl
    · rintro rfl
      exact ⟨[c], rest, rfl, ⟨c, rfl, rfl⟩, rfl⟩

theorem matches_optional_iff {pattern : Pattern} {text : List Char} :
    Matches (optional pattern) text ↔ text = [] ∨ Matches pattern text := by
  rw [optional, matches_either_iff]
  constructor
  · rintro (belongs | belongs)
    · cases belongs
      exact .inl rfl
    · exact .inr belongs
  · rintro (rfl | belongs)
    · exact .inl .blank
    · exact .inr belongs

/-- A text of any number of texts is these texts one after the other. -/
theorem exists_flatten_of_many {body : Pattern} {text : List Char}
    (belongs : Matches (.many body) text) :
    ∃ parts : List (List Char), text = parts.flatten ∧ ∀ part ∈ parts, Matches body part := by
  generalize pattern_eq : Pattern.many body = pattern at belongs
  induction belongs with
  | stop => exact ⟨[], rfl, by simp⟩
  | @more inner left right belongsLeft _ _ inductionHypothesis =>
    cases pattern_eq
    rcases inductionHypothesis rfl with ⟨parts, rfl, belongsParts⟩
    exact ⟨left :: parts, rfl, List.forall_mem_cons.mpr ⟨belongsLeft, belongsParts⟩⟩
  | _ => cases pattern_eq

theorem exists_flatten_of_repeated {body : Pattern} {text : List Char}
    (belongs : Matches (repeated body) text) :
    ∃ parts : List (List Char), parts ≠ [] ∧ text = parts.flatten ∧
      ∀ part ∈ parts, Matches body part := by
  rcases matches_seq_iff.mp belongs with ⟨left, right, rfl, belongsLeft, belongsRight⟩
  rcases exists_flatten_of_many belongsRight with ⟨parts, rfl, belongsParts⟩
  exact ⟨left :: parts, List.cons_ne_nil _ _, rfl,
    List.forall_mem_cons.mpr ⟨belongsLeft, belongsParts⟩⟩

theorem exists_mem_of_oneOf {first : Char} {others text : List Char}
    (belongs : Matches (oneOf first others) text) : ∃ c ∈ first :: others, text = [c] := by
  induction others generalizing first with
  | nil =>
    rcases matches_one_iff.mp belongs with ⟨c, rfl, admitted⟩
    exact ⟨c, by simpa [Symbol.admits] using admitted, rfl⟩
  | cons second others inductionHypothesis =>
    rcases matches_either_iff.mp belongs with isFirst | later
    · rcases matches_one_iff.mp isFirst with ⟨c, rfl, admitted⟩
      exact ⟨c, by simp [beq_iff_eq.mp admitted], rfl⟩
    · rcases inductionHypothesis later with ⟨c, member, rfl⟩
      exact ⟨c, List.mem_cons_of_mem _ member, rfl⟩

end Pattern

end Formulary.Text
