import Formulary.Json.Records
import Formulary.Proofs.Json.Value

/-!
# Calculations read back from JSON

A record is read by the names of its fields from the object it is written as. For a calculation this
gives back its identity, its formula and its mark without loss, and the result as far as the text of
a double is read as that double (`ReadsBack`). The main statement is `calculation_kept_in_json`.
-/

namespace Formulary

namespace Json

variable {members : List (String × Json)} {names : List String} {name : String} {value : Json}

/-! ## Fields of written records -/

theorem wellWritten_ofMembers (values : ∀ value ∈ members.map (·.2), WellWritten value) :
    WellWritten (.ofMembers members) := by
  apply WellWritten.object
  · intro key member
    rw [List.map_map] at member
    rcases List.mem_map.mp member with ⟨⟨name, value⟩, -, rfl⟩
    exact ⟨name.toList, rfl⟩
  · rw [List.map_map]
    exact values

theorem namedMembers?_ofMembers (members : List (String × Json)) :
    namedMembers? (members.map fun (key, value) => (escape key.toList, value)) =
      some (members.map fun (key, value) => (key.toList, value)) := by
  induction members with
  | nil => rfl
  | cons member others inductionHypothesis =>
    rcases member with ⟨name, value⟩
    rw [List.map_cons, namedMembers?, unescape?_escape, inductionHypothesis]
    rfl

/-- Where the names differ, each member is found by its name. -/
theorem member?_ofMembers (different : (members.map (·.1)).Nodup)
    (isMember : (name, value) ∈ members) :
    member? (members.map fun (key, value) => (key.toList, value)) name = some (some value) := by
  have found : (members.map fun (key, value) => (key.toList, value)).filter (·.1 == name.toList) =
      [(name.toList, value)] := by
    induction members with
    | nil => cases isMember
    | cons member others inductionHypothesis =>
      rcases member with ⟨key, other⟩
      rw [List.map_cons, List.nodup_cons] at different
      rcases List.mem_cons.mp isMember with isFirst | isLater
      · cases isFirst
        rw [List.map_cons, List.filter_cons, if_pos (beq_self_eq_true _),
          List.filter_eq_nil_iff.mpr]
        intro pair isOther same
        rcases List.mem_map.mp isOther with ⟨⟨otherKey, _⟩, otherMember, rfl⟩
        obtain rfl := String.toList_inj.mp (beq_iff_eq.mp same)
        exact different.1 (List.mem_map.mpr ⟨_, otherMember, rfl⟩)
      · have notFirst : key.toList ≠ name.toList := by
          intro same
          obtain rfl := String.toList_inj.mp same
          exact different.1 (List.mem_map.mpr ⟨_, isLater, rfl⟩)
        rw [List.map_cons, List.filter_cons_of_neg (by simpa using notFirst)]
        exact inductionHypothesis different.2 isLater
  rw [member?, found]

theorem mapM_member? {named : List (List Char × Json)}
    (found : ∀ member ∈ members, member? named member.1 = some (some member.2)) :
    (members.map (·.1)).mapM (member? named) = some (members.map (some ·.2)) := by
  induction members with
  | nil => rfl
  | cons member others inductionHypothesis =>
    rw [List.forall_mem_cons] at found
    rw [List.map_cons, List.mapM_cons, found.1, inductionHypothesis found.2]
    rfl

/-- A written record has its values under the names of its fields. -/
theorem fields?_ofMembers (members : List (String × Json))
    (different : (members.map (·.1)).Nodup) :
    (Json.ofMembers members).fields? (members.map (·.1)) = some (members.map (some ·.2)) := by
  rw [ofMembers, fields?, namedMembers?_ofMembers]
  exact mapM_member? fun _ isMember => member?_ofMembers different isMember

/-! ## Plain values -/

theorem wellWritten_ofInt (value : Int) : WellWritten (.ofInt value) := by
  rw [ofInt, intText_eq]
  exact .number (wellFormed_intNumeral value)

theorem wellWritten_ofId? (id? : Option Int) : WellWritten (.ofId? id?) := by
  cases id? with
  | none => exact .null
  | some id => exact wellWritten_ofInt id

theorem wellWritten_ofFloat (value : Float) : WellWritten (.ofFloat value) := by
  rw [ofFloat]
  split
  · rename_i text written
    rcases exists_of_floatText? written with ⟨numeral, wellFormed, rfl⟩
    exact .number wellFormed
  · exact .null

/-- Identities of 64 bits are read as they are written. -/
theorem toId?_ofInt {id : Int} (atLeast : smallestId ≤ id) (atMost : id ≤ largestId) :
    (Json.ofInt id).toId? = some id := by
  have read : (Json.ofInt id).toInt? = some id := by
    rw [ofInt, toInt?, intText_eq, Numeral.ofText?_text (wellFormed_intNumeral id),
      Option.bind_some]
    simp only [smallestId, largestId] at atLeast atMost
    apply toInt?_intNumeral
    · simp only [signedLimit]
      omega
    · simp only [wordLimit]
      omega
  rw [toId?, read]
  simp [atMost]

theorem toOptionalId?_ofId? {id? : Option Int}
    (inRange : ∀ id ∈ id?, smallestId ≤ id ∧ id ≤ largestId) :
    toOptionalId? (some (ofId? id?)) = some id? := by
  cases id? with
  | none => rfl
  | some id =>
    rcases inRange id rfl with ⟨atLeast, atMost⟩
    have read := toId?_ofInt atLeast atMost
    show ((Json.ofInt id).toId?).map some = _
    rw [read]
    rfl

/-- The number that is written for the double is read as the same double. Numbers of many digits may
be read as a neighbour. -/
def ReadsBack (value : Float) : Prop :=
  (Json.ofFloat value).toFloat? = some value

instance (value : Float) : Decidable (ReadsBack value) :=
  inferInstanceAs (Decidable (_ = _))

example : ReadsBack 0.1 ∧ ReadsBack (-7) ∧ ReadsBack 1e300 := by decide +kernel

example : ¬ReadsBack (1 / 11) := by decide +kernel

/-- What is no finite number is written as `null`. -/
theorem ofFloat_eq_null {value : Float} (notFinite : value.isFinite = false) :
    Json.ofFloat value = .null := by
  have noText : floatText? value = none := by
    rw [← Option.not_isSome_iff_eq_none, isSome_floatText?_iff, notFinite]
    exact Bool.false_ne_true
  rw [ofFloat, noText]

end Json

/-! ## Calculations -/

namespace Calculation

variable {calculation : Calculation}

theorem wellWritten_toJson (calculation : Calculation) : Json.WellWritten calculation.toJson := by
  apply Json.wellWritten_ofMembers
  simp only [List.map_cons, List.map_nil, List.forall_mem_cons, List.not_mem_nil, false_implies,
    implies_true, and_true]
  exact ⟨Json.wellWritten_ofId? calculation.id, .string calculation.formula,
    Json.wellWritten_ofFloat calculation.result, .bool calculation.stale⟩

/-- A calculation is read with the result as which its number is read. -/
theorem ofJson?_toJson (inRange : ∀ id ∈ calculation.id, smallestId ≤ id ∧ id ≤ largestId) :
    ofJson? calculation.toJson =
      (Json.ofFloat calculation.result).toFloat?.map fun result => { calculation with result } := by
  have fields := Json.fields?_ofMembers [("id", .ofId? calculation.id),
    ("expression", .ofChars calculation.formula), ("result", .ofFloat calculation.result),
    ("stale", .bool calculation.stale)] (by simp)
  have formula : (Json.ofChars calculation.formula).toChars? = some calculation.formula :=
    Json.unescape?_escape calculation.formula
  rw [ofJson?, toJson]
  simp only [List.map_cons, List.map_nil] at fields
  rw [fields]
  simp only [Option.bind_eq_bind, Option.bind_some, Json.toOptionalId?_ofId? inRange, formula]
  cases (Json.ofFloat calculation.result).toFloat? <;> rfl

/-- What the JSON text of a calculation is read as. -/
theorem ofText?_toJson (inRange : ∀ id ∈ calculation.id, smallestId ≤ id ∧ id ≤ largestId) :
    (Json.ofText? calculation.toJson.text).bind ofJson? =
      (Json.ofFloat calculation.result).toFloat?.map fun result => { calculation with result } := by
  rw [Json.ofText?_text (wellWritten_toJson calculation), Option.bind_some, ofJson?_toJson inRange]

end Calculation

/-- The JSON text of a calculation is read as the same calculation if its result is finite, and it
is refused otherwise. A finite result has to be one whose number is read back. The quotients `1 / 2`
and `1 / 3` are; `1 / 11` and many others are not. -/
theorem calculation_kept_in_json (calculation : Calculation)
    (inRange : ∀ id ∈ calculation.id, smallestId ≤ id ∧ id ≤ largestId)
    (numberReadsBack : calculation.result.isFinite = true → Json.ReadsBack calculation.result) :
    (Json.ofText? calculation.toJson.text).bind Calculation.ofJson? =
      if calculation.result.isFinite then some calculation else none := by
  rw [Calculation.ofText?_toJson inRange]
  split
  · rename_i finite
    rw [numberReadsBack finite]
    rfl
  · rename_i notFinite
    rw [Json.ofFloat_eq_null (Bool.eq_false_iff.mpr notFinite)]
    rfl

/-- A calculation that has quotes, a backslash, control characters and other scripts in its formula,
and a result that is written with an exponent. -/
def quotedCalculation : Calculation :=
  { id := some (-7), formula := "say \"1\\2\"\n\t\x01é😀".toList, result := -1e300, stale := true }

theorem calculation_kept_in_json_quoted :
    (Json.ofText? quotedCalculation.toJson.text).bind Calculation.ofJson? = some quotedCalculation ∧
      (Json.ofText? { quotedCalculation with result := 1 / 0 }.toJson.text).bind
        Calculation.ofJson? = none := by
  have inRange : ∀ id ∈ quotedCalculation.id, smallestId ≤ id ∧ id ≤ largestId := by decide
  have finite : quotedCalculation.result.isFinite = true := by decide +kernel
  have infinite : (1 / 0 : Float).isFinite = false := by decide +kernel
  constructor
  · have kept := calculation_kept_in_json quotedCalculation inRange fun _ => by decide +kernel
    rwa [if_pos finite] at kept
  · have refused := calculation_kept_in_json { quotedCalculation with result := 1 / 0 } inRange
      fun isFinite => by simp [infinite] at isFinite
    rwa [if_neg (by simp [infinite])] at refused

end Formulary
