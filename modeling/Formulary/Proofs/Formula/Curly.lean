import Formulary.Proofs.Formula.Exactness

/-!
# Curly brackets in accepted texts

In an accepted text curly brackets stand nowhere but around the digits of markers. That holds of a
text as it is handed in as well, unless blank characters stand inside a marker. The main statement is
`markersWhole_of_canonical`.
-/

namespace Formulary

namespace Text.Pattern

/-- Whether some character of the pattern may be this one. -/
def mentions (c : Char) : Pattern → Bool
  | .blank => false
  | .one symbol => symbol.admits c
  | .seq first second => first.mentions c || second.mentions c
  | .either left right => left.mentions c || right.mentions c
  | .many body => body.mentions c

theorem Matches.mentions_of_mem {pattern : Pattern} {text : List Char} {c : Char}
    (belongs : Matches pattern text) (member : c ∈ text) : pattern.mentions c = true := by
  induction belongs with
  | blank => cases member
  | one admitted =>
    obtain rfl := List.mem_singleton.mp member
    exact admitted
  | seq _ _ first second =>
    rcases List.mem_append.mp member with member | member
    · simp [mentions, first member]
    · simp [mentions, second member]
  | left _ inductionHypothesis => simp [mentions, inductionHypothesis member]
  | right _ inductionHypothesis => simp [mentions, inductionHypothesis member]
  | stop => cases member
  | more _ _ first second =>
    rcases List.mem_append.mp member with member | member
    · exact first member
    · exact second member

end Text.Pattern

namespace Formula

open Text
open Text.Pattern (Matches matches_either_iff matches_seq_iff)

variable {raw text left right digits : List Char} {c : Char}

/-! ## Tokens -/

/-- The text has no curly bracket. -/
def Curlyless (text : List Char) : Prop :=
  ∀ c ∈ text, c ≠ '{' ∧ c ≠ '}'

theorem curlyless_of_mentions {pattern : Pattern} (belongs : Matches pattern text)
    (opening : pattern.mentions '{' = false) (closing : pattern.mentions '}' = false) :
    Curlyless text := by
  intro c member
  constructor
  · rintro rfl
    cases opening.symm.trans (belongs.mentions_of_mem member)
  · rintro rfl
    cases closing.symm.trans (belongs.mentions_of_mem member)

theorem Literal.curlyless {number : Float} (literal : Literal text number) : Curlyless text := by
  intro c member
  have isLiteral := literal.characters c member
  exact ⟨ne_of_isLiteralChar isLiteral (by decide), ne_of_isLiteralChar isLiteral (by decide)⟩

theorem Written.curlyless {number : Float} (written : Written text number) : Curlyless text := by
  cases written with
  | literal literal => exact literal.curlyless
  | negative literal =>
    intro c member
    simp only [List.cons_append, List.mem_cons, List.mem_append, List.not_mem_nil, or_false]
      at member
    rcases member with rfl | rfl | inText | rfl
    · decide
    · decide
    · exact literal.curlyless c inText
    · decide

theorem curlyless_valueText (value : Float) : Curlyless (valueText value) :=
  (written_valueText value).curlyless

/-- A token is a marker or has no curly bracket. -/
theorem token_cases (belongs : Matches tokenPattern text) :
    Curlyless text ∨ ∃ digits, BeginsWithMarker text digits [] := by
  rcases matches_either_iff.mp belongs with isLogarithm | belongs
  · exact .inl (curlyless_of_mentions isLogarithm (by decide) (by decide))
  rcases matches_either_iff.mp belongs with isPower | belongs
  · exact .inl (curlyless_of_mentions isPower (by decide) (by decide))
  rcases matches_either_iff.mp belongs with isSymbol | isMarker
  · exact .inl (curlyless_of_mentions isSymbol (by decide) (by decide))
  · rcases matches_seq_iff.mp isMarker with ⟨opening, _, rfl, isOpening, belongs⟩
    rcases matches_seq_iff.mp belongs with ⟨digits, closing, rfl, belongsDigits, isClosing⟩
    obtain rfl := Pattern.matches_literal_iff.mp isOpening
    obtain rfl := Pattern.matches_literal_iff.mp isClosing
    rcases decimals_of_matches belongsDigits with ⟨nonempty, decimal⟩
    exact .inr ⟨digits, rfl, nonempty, decimal⟩

/-! ## Texts as they are handed in -/

theorem canonicalText_append (left right : List Char) :
    canonicalText (left ++ right) = canonicalText left ++ canonicalText right := by
  simp [canonicalText]

/-- Two parts of a canonical text have been handed in one after the other. -/
theorem exists_of_canonicalText_append (spelled : canonicalText raw = left ++ right) :
    ∃ rawLeft rawRight, raw = rawLeft ++ rawRight ∧ canonicalText rawLeft = left ∧
      canonicalText rawRight = right := by
  rcases List.map_eq_append_iff.mp spelled with ⟨first, second, filtered, rfl, rfl⟩
  rcases List.filter_eq_append_iff.mp filtered with ⟨rawLeft, rawRight, rfl, rfl, rfl⟩
  exact ⟨rawLeft, rawRight, rfl, rfl, rfl⟩

/-- What is not blank and no comma is handed in as it is. -/
theorem mem_canonicalText (member : c ∈ raw) (notBlank : isBlank c = false) (notComma : c ≠ ',') :
    c ∈ canonicalText raw :=
  List.mem_map.mpr ⟨c, List.mem_filter.mpr ⟨member, by simp [notBlank]⟩, if_neg notComma⟩

theorem curlyless_of_canonicalText (curlyless : Curlyless (canonicalText raw)) : Curlyless raw := by
  intro c member
  constructor
  · rintro rfl
    exact (curlyless _ (mem_canonicalText member (by decide) (by decide))).1 rfl
  · rintro rfl
    exact (curlyless _ (mem_canonicalText member (by decide) (by decide))).2 rfl

/-- A curly bracket at the beginning of a canonical text has been handed in behind blank characters
at most. -/
theorem exists_of_canonicalText_cons {rest : List Char} (notPoint : c ≠ '.')
    (spelled : canonicalText raw = c :: rest) :
    ∃ blanks behind, raw = blanks ++ c :: behind ∧ canonicalText blanks = [] ∧
      canonicalText behind = rest := by
  rcases List.map_eq_cons_iff.mp spelled with ⟨first, others, filtered, first_eq, rfl⟩
  rcases List.filter_eq_cons_iff.mp filtered with ⟨blanks, behind, rfl, areBlank, -, rfl⟩
  have same : first = c := by
    split at first_eq
    · exact absurd first_eq.symm notPoint
    · exact first_eq
  subst same
  refine ⟨blanks, behind, rfl, ?_, rfl⟩
  rw [canonicalText, List.filter_eq_nil_iff.mpr areBlank]
  rfl

/-- No blank character stands between an opening curly bracket and the next closing one. -/
def MarkersUnspaced (text : List Char) : Prop :=
  ∀ before inner after, text = before ++ '{' :: (inner ++ '}' :: after) → '}' ∉ inner →
    ∀ c ∈ inner, isBlank c = false

theorem MarkersUnspaced.of_append (unspaced : MarkersUnspaced (left ++ right)) :
    MarkersUnspaced left ∧ MarkersUnspaced right := by
  constructor
  · rintro before inner after rfl noClosing
    exact unspaced before inner (after ++ right) (by simp) noClosing
  · rintro before inner after rfl noClosing
    exact unspaced (left ++ before) inner after (by simp) noClosing

/-- A marker that has not been spaced has been handed in as it is, with blank characters around it
at most. -/
theorem BeginsWithMarker.of_canonicalText (unspaced : MarkersUnspaced raw)
    (begins : BeginsWithMarker (canonicalText raw) digits []) :
    ∃ blanks marker trailing, raw = blanks ++ (marker ++ trailing) ∧ canonicalText blanks = [] ∧
      canonicalText trailing = [] ∧ BeginsWithMarker marker digits [] := by
  obtain ⟨blanks, behind, rfl, areBlank, spelledBehind⟩ :=
    exists_of_canonicalText_cons (by decide) begins.text_eq
  rcases exists_of_canonicalText_append spelledBehind with
    ⟨inside, closing, rfl, spelledDigits, spelledClosing⟩
  obtain ⟨spaces, trailing, rfl, areSpaces, areTrailing⟩ :=
    exists_of_canonicalText_cons (by decide) spelledClosing
  have spelled : canonicalText (inside ++ spaces) = digits := by
    rw [canonicalText_append, spelledDigits, areSpaces, List.append_nil]
  have foreign : ∀ {c}, isBlank c = false → isDecimalDigit c = false → c ≠ ',' →
      c ∉ inside ++ spaces := by
    intro c notBlank notDigit notComma member
    have inDigits := mem_canonicalText member notBlank notComma
    rw [spelled] at inDigits
    cases notDigit.symm.trans (begins.decimal c inDigits)
  have notBlank := unspaced blanks (inside ++ spaces) trailing (by simp)
    (foreign (by decide) (by decide) (by decide))
  have noComma : ',' ∉ inside ++ spaces := by
    intro member
    have point : '.' ∈ canonicalText (inside ++ spaces) :=
      List.mem_map.mpr ⟨',', List.mem_filter.mpr ⟨member, by decide⟩, rfl⟩
    rw [spelled] at point
    exact absurd (begins.decimal _ point) (by decide)
  have whole : inside ++ spaces = digits := by
    rw [← spelled]
    refine (canonicalText_eq_self fun c member => ⟨notBlank c member, ?_⟩).symm
    rintro rfl
    exact noComma member
  exact ⟨blanks, '{' :: (digits ++ ['}']), trailing, by simp [← whole], areBlank, areTrailing,
    rfl, begins.nonempty, begins.decimal⟩

/-! ## Curly brackets around markers alone -/

/-- All curly brackets of a text belong to markers that end in it. -/
structure MarkersWhole (text : List Char) : Prop where
  closed : Closed text
  plain : ∀ c, .plain c ∈ segments text → c ≠ '{' ∧ c ≠ '}'

theorem Curlyless.markersWhole (curlyless : Curlyless text) : MarkersWhole text where
  closed := closed_of_plain fun c member => (curlyless c member).1
  plain c member := by
    rw [segments_of_plain fun c member => (curlyless c member).1] at member
    rcases List.mem_map.mp member with ⟨_, inText, same⟩
    cases same
    exact curlyless c inText

theorem BeginsWithMarker.markersWhole (begins : BeginsWithMarker text digits []) :
    MarkersWhole text where
  closed := begins.closed
  plain c member := by
    rw [begins.segments_eq, segments] at member
    simp at member

theorem MarkersWhole.append (before : MarkersWhole left) (after : MarkersWhole right) :
    MarkersWhole (left ++ right) where
  closed := before.closed.append after.closed
  plain c member := by
    rw [before.closed right] at member
    exact (List.mem_append.mp member).elim (before.plain c) (after.plain c)

theorem markersWhole_of_canonicalText_nil (spelled : canonicalText raw = []) : MarkersWhole raw := by
  have curlyless : Curlyless (canonicalText raw) := by
    rw [spelled]
    nofun
  exact (curlyless_of_canonicalText curlyless).markersWhole

/-- What has been handed in for a token has its curly brackets around a marker alone. -/
theorem markersWhole_of_token (belongs : Matches tokenPattern (canonicalText raw))
    (unspaced : MarkersUnspaced raw) : MarkersWhole raw := by
  rcases token_cases belongs with curlyless | ⟨digits, begins⟩
  · exact (curlyless_of_canonicalText curlyless).markersWhole
  · rcases begins.of_canonicalText unspaced with
      ⟨blanks, marker, trailing, rfl, areBlank, areTrailing, isMarker⟩
    exact (markersWhole_of_canonicalText_nil areBlank).append
      (isMarker.markersWhole.append (markersWhole_of_canonicalText_nil areTrailing))

theorem markersWhole_of_tokens {tokens : List (List Char)}
    (spelled : canonicalText raw = tokens.flatten)
    (belong : ∀ token ∈ tokens, Matches tokenPattern token) (unspaced : MarkersUnspaced raw) :
    MarkersWhole raw := by
  induction tokens generalizing raw with
  | nil => exact markersWhole_of_canonicalText_nil spelled
  | cons token rest inductionHypothesis =>
    rcases exists_of_canonicalText_append spelled with ⟨first, others, rfl, rfl, spelledRest⟩
    rcases unspaced.of_append with ⟨unspacedFirst, unspacedRest⟩
    exact (markersWhole_of_token (belong _ List.mem_cons_self) unspacedFirst).append
      (inductionHypothesis spelledRest
        (fun other member => belong other (List.mem_cons_of_mem _ member)) unspacedRest)

/-- An accepted text has its curly brackets around markers alone, unless blank characters stand
inside a marker. -/
theorem markersWhole_of_canonical (spelled : canonical raw = .ok text)
    (unspaced : MarkersUnspaced raw) : MarkersWhole raw := by
  rcases canonical_eq_ok_iff.mp spelled with ⟨text_eq, accepted⟩
  rcases Pattern.exists_flatten_of_repeated accepted.tokens with ⟨tokens, -, flatten_eq, belong⟩
  exact markersWhole_of_tokens (text_eq.symm.trans flatten_eq) belong unspaced

/-- A text that has been brought into its form has no blank characters at all. -/
theorem markersUnspaced_of_canonical (spelled : canonical raw = .ok text) :
    MarkersUnspaced text := by
  rintro before inner after text_eq - c member
  obtain rfl := eq_canonicalText spelled
  have inText : c ∈ canonicalText raw := by
    rw [text_eq]
    simp [member]
  exact (kept_of_mem_canonicalText inText).1

end Formula

end Formulary
