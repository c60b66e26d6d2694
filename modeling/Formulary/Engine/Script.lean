import Formulary.Engine.Operations

/-!
# Scripts

A script is a row of steps: operations of the engine, commands to its store and its links, blocks of
such commands that are done wholly or not at all, and changes of the settings.
-/

namespace Formulary.Engine

/-- A command to the store or to the links in it. -/
inductive Command where
  | save (entry : Entry)
  | get (id : Int)
  | put (calculation : Calculation)
  | remove (id : Int)
  | link (link : Link)
  | unlink (origin : Int)
  | dependents (id : Int)
  | record (id : Int) (dependencies : IdSet)
  | downstream (id : Int)
  | acyclic (id : Int) (dependencies : IdSet)
  | cascade (id : Int)

/-- An operation of the engine. -/
inductive Operation where
  | create (raw : List Char)
  | read (id : Int)
  | update (id : Int) (raw : List Char)
  | delete (id : Int)
  | recalculate (id : Int)

/-- A step of a script. -/
inductive Step where
  | operation (operation : Operation)
  | reconfigure (settings : EngineSettings)
  | command (command : Command)
  /-- Several commands, all or none. With `failWith` the block fails at its end, as if the row with
  this identity were missing. -/
  | block (commands : List Command) (failWith : Option Int)

/-- What a step answers. -/
inductive Answer where
  | nothing
  | id (id : Int)
  | calculation (calculation : Calculation)
  | row (found : Option Calculation)
  | ids (ids : List Int)
  | settings (settings : EngineSettings)
  | several (answers : List Answer)

section

variable {σ : Type} [Store σ]

/-- Carries out a command. -/
def Command.run : Command → Action σ Failure Answer
  | .save entry => return .id (← Action.mapError .store (Store.save entry))
  | .get id => do
    let found ← Action.mapError .store (Store.fetchRow id)
    return .row (found.map (·.withId id))
  | .put calculation => do
    Action.mapError .store (Store.replace calculation)
    return .nothing
  | .remove id => do
    Action.mapError .store (Store.remove id)
    return .nothing
  | .link added => do
    Action.mapError .store (Store.link added)
    return .nothing
  | .unlink origin => do
    Action.mapError .store (Store.unlink origin)
    return .nothing
  | .dependents id =>
    return .ids (← Action.mapError .store (.inspect fun state => Store.dependents state id))
  | .record id dependencies => do
    recordLinks id dependencies
    return .nothing
  | .downstream id => do
    let ids ← Action.mapError .links (.inspect fun state => Links.downstream state id)
    return .ids ids.toList
  | .acyclic id dependencies => do
    Action.mapError .links (.inspect (Links.ensureAcyclic id dependencies))
    return .nothing
  | .cascade id => return .ids (← Engine.cascade id)

/-- Carries out commands one after the other, up to the first that fails. -/
def runCommands : List Command → Action σ Failure (List Answer)
  | [] => return []
  | command :: rest => do
    let answer ← command.run
    let others ← runCommands rest
    return answer :: others

/-- Carries out a block of commands. -/
def runBlock (commands : List Command) (failWith : Option Int) : Action σ Failure Answer :=
  Action.atomically do
    let answers ← runCommands commands
    match failWith with
    | some id => .fail (.store (.missingRow id))
    | none => return .several answers

/-- Carries out an operation under some settings. -/
def Operation.run (settings : EngineSettings) : Operation → Action σ Failure Answer
  | .create raw => return .calculation (← Engine.create settings raw)
  | .read id => return .calculation (← Engine.read settings id)
  | .update id raw => return .calculation (← Engine.update settings id raw)
  | .delete id => do
    Engine.delete id
    return .nothing
  | .recalculate id => return .calculation (← Engine.recalculate settings id)

/-- Carries out a step under some settings. -/
def Step.run (settings : EngineSettings) : Step → Action σ Failure Answer
  | .operation single => single.run settings
  | .reconfigure settings => return .settings settings
  | .command single => single.run
  | .block commands failWith => runBlock commands failWith

/-- The settings that hold after a step. -/
def Step.settingsAfter (settings : EngineSettings) : Step → EngineSettings
  | .reconfigure changed => changed
  | _ => settings

/-- The outcomes of the steps of a script, each with the state that the step leaves. -/
def runScript (settings : EngineSettings) (state : σ) :
    List Step → List (Except Failure Answer × σ)
  | [] => []
  | step :: rest =>
    let outcome := step.run settings state
    outcome :: runScript (step.settingsAfter settings) outcome.2 rest

end

end Formulary.Engine
