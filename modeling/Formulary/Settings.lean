import Formulary.Formula.Evaluation
import Formulary.Store.Relational

/-!
# Settings

How an engine evaluates, and how the tables of its store are named. Everything has a default.
-/

namespace Formulary

/-- The limits and the policy of an engine. -/
structure EngineSettings where
  /-- The longest chain of stale calculations that one reading evaluates. -/
  maxDepth : Nat := 64
  /-- The depth to which the parts of one formula may lie within each other. -/
  maxNesting : Nat := Formula.Evaluator.standard.nesting
  policy : Formula.SplitPolicy := .legacy
  deriving DecidableEq

/-- The evaluator of an engine. -/
def EngineSettings.evaluator (settings : EngineSettings) : Formula.Evaluator :=
  ⟨settings.policy, settings.maxNesting⟩

/-- The names that tables have by default. -/
def TableNames.standard : TableNames :=
  ⟨"calculations".toList, "relations".toList⟩

/-- All settings. -/
structure Settings where
  engine : EngineSettings := {}
  tables : TableNames := .standard
  deriving DecidableEq

/-- What can be wrong with settings. -/
inductive SettingsError where
  /-- The text is no JSON, or its values are not of the kinds expected. -/
  | unreadable
  /-- A limit is zero. -/
  | zeroLimit
  /-- Both tables have this name. -/
  | sharedTable (name : List Char)
  deriving DecidableEq

/-- The message about settings that can be read but not used. -/
def SettingsError.message : SettingsError → String
  | .unreadable => "cannot parse config"
  | .zeroLimit => "invalid config: engine.max_depth and engine.max_nesting must be at least 1"
  | .sharedTable name =>
    "invalid config: store tables must differ, both are '" ++ String.ofList name ++ "'"

/-- Settings are usable if no limit is zero and the tables have different names. -/
def Settings.check (settings : Settings) : Except SettingsError Settings :=
  if settings.engine.maxDepth = 0 ∨ settings.engine.maxNesting = 0 then
    .error .zeroLimit
  else if settings.tables.calculations = settings.tables.relations then
    .error (.sharedTable settings.tables.calculations)
  else
    .ok settings

end Formulary
