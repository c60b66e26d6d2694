import Formulary.Json.Value
import Formulary.Settings

/-!
# Calculations and settings in JSON

The JSON forms of calculations, links, policies and settings. A record is written as an object with
its fields in order, and read from such an object or from an array of the values. Fields that have a
default may be missing.
-/

namespace Formulary

/-- The JSON form of an identity that may be missing. -/
def Json.ofId? : Option Int → Json
  | some id => .ofInt id
  | none => .null

/-- An identity, which may be missing or `null`. -/
def Json.toOptionalId? : Option Json → Option (Option Int)
  | none | some .null => some none
  | some json => json.toId?.map some

/-- A value that may be missing, with its default. -/
def Json.getD {α : Type} (read : Json → Option α) (default : α) : Option Json → Option α
  | none => some default
  | some json => read json

namespace Calculation

/-- The JSON form of a calculation. -/
def toJson (calculation : Calculation) : Json :=
  .ofMembers [("id", .ofId? calculation.id), ("expression", .ofChars calculation.formula),
    ("result", .ofFloat calculation.result), ("stale", .bool calculation.stale)]

/-- The calculation that a JSON value spells. Only the identity may be missing. -/
def ofJson? (json : Json) : Option Calculation := do
  match ← json.fields? ["id", "expression", "result", "stale"] with
  | [id, some formula, some result, some stale] =>
    return { id := ← Json.toOptionalId? id, formula := ← formula.toChars?,
             result := ← result.toFloat?, stale := ← stale.toBool? }
  | _ => none

end Calculation

namespace Link

/-- The JSON form of a link. -/
def toJson (link : Link) : Json :=
  .ofMembers [("origin", .ofInt link.origin), ("destination", .ofInt link.destination)]

/-- The link that a JSON value spells. -/
def ofJson? (json : Json) : Option Link := do
  match ← json.fields? ["origin", "destination"] with
  | [some origin, some destination] => return ⟨← origin.toId?, ← destination.toId?⟩
  | _ => none

end Link

namespace Formula.SplitPolicy

/-- The name of a policy. -/
def name : SplitPolicy → String
  | .legacy => "legacy"
  | .leftAssociative => "left_associative"

/-- The policy with a name. -/
def ofName? (text : List Char) : Option SplitPolicy :=
  if text = "legacy".toList then some .legacy
  else if text = "left_associative".toList then some .leftAssociative
  else none

/-- The JSON form of a policy. -/
def toJson (policy : SplitPolicy) : Json :=
  .ofChars policy.name.toList

/-- The policy that a JSON value spells: its name, or an object whose one member has that name and
the value `null`. -/
def ofJson? : Json → Option SplitPolicy
  | .object [(key, .null)] => (Json.unescape? key).bind ofName?
  | json => json.toChars?.bind ofName?

end Formula.SplitPolicy

namespace EngineSettings

/-- The JSON form of the settings of an engine. -/
def toJson (settings : EngineSettings) : Json :=
  .ofMembers [("max_depth", .ofInt settings.maxDepth), ("max_nesting", .ofInt settings.maxNesting),
    ("split_policy", settings.policy.toJson)]

/-- The settings of an engine that a JSON value spells. -/
def ofJson? (json : Json) : Option EngineSettings := do
  let standard : EngineSettings := {}
  match ← json.fields? ["max_depth", "max_nesting", "split_policy"] with
  | [depth, nesting, policy] =>
    return { maxDepth := ← Json.getD Json.toNat? standard.maxDepth depth,
             maxNesting := ← Json.getD Json.toNat? standard.maxNesting nesting,
             policy := ← Json.getD Formula.SplitPolicy.ofJson? standard.policy policy }
  | _ => none

end EngineSettings

namespace TableNames

/-- The JSON form of table names. -/
def toJson (names : TableNames) : Json :=
  .ofMembers [("calculations_table", .ofChars names.calculations),
    ("relations_table", .ofChars names.relations)]

/-- The table names that a JSON value spells. -/
def ofJson? (json : Json) : Option TableNames := do
  match ← json.fields? ["calculations_table", "relations_table"] with
  | [calculations, relations] =>
    return ⟨← Json.getD Json.toChars? standard.calculations calculations,
      ← Json.getD Json.toChars? standard.relations relations⟩
  | _ => none

end TableNames

namespace Settings

/-- The JSON form of settings. -/
def toJson (settings : Settings) : Json :=
  .ofMembers [("engine", settings.engine.toJson), ("store", settings.tables.toJson)]

/-- The settings that a JSON value spells, not yet checked. -/
def ofJson? (json : Json) : Option Settings := do
  match ← json.fields? ["engine", "store"] with
  | [engine, tables] =>
    return { engine := ← Json.getD EngineSettings.ofJson? {} engine,
             tables := ← Json.getD TableNames.ofJson? .standard tables }
  | _ => none

/-- The settings that a text spells, checked. -/
def ofText (text : List Char) : Except SettingsError Settings :=
  match (Json.ofText? text).bind ofJson? with
  | some settings => settings.check
  | none => .error .unreadable

end Settings

end Formulary
