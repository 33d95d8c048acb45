import Statechart.Execution
import Statechart.Json.Printer
import Statechart.Uuid

/-!
# Checkpoints

What can be seen of an interpreter, saved as text, from which another interpreter goes
on. Actions and guards are not saved; restoring needs the same definition and a
registry for it. Restored, an active machine runs without entering its states again,
and its delayed transitions are armed afresh on a clock at zero.
-/

namespace Statechart

def checkpointVersion : UInt32 := 1

structure Checkpoint where
  version : UInt32
  id : Uuid
  machine : String
  timestamp : Timestamp
  value : StateValue
  context : Context
  status : Status
  history : History

inductive CheckpointError
  | malformed
  | unsupportedVersion (found supported : UInt32)
  | machineMismatch (expected found : String)
  | invalidValue (error : ValueError)
  | definition (error : DefinitionError)

namespace CheckpointError

def message : CheckpointError → String
  | .malformed => "Deserialization failed"
  | .unsupportedVersion found supported =>
    "Unsupported checkpoint version " ++ toString found.toNat ++ ", supported: " ++
      toString supported.toNat
  | .machineMismatch expected found =>
    s!"Checkpoint belongs to machine '{found}', expected '{expected}'"
  | .invalidValue error => "Checkpoint validation failed: " ++ error.message
  | .definition error => error.message

end CheckpointError

namespace Checkpoint

instance : Inhabited Checkpoint := ⟨⟨1, default, "", default, default, .empty, .active, {}⟩⟩

/-- Equality of checkpoints, numbers in the context compared as numbers. -/
def same (a b : Checkpoint) : Bool :=
  a.version == b.version && a.id == b.id && a.machine == b.machine &&
    a.timestamp == b.timestamp && a.value == b.value && a.context.same b.context &&
    a.status == b.status && a.history == b.history

def toJson (checkpoint : Checkpoint) : Json :=
  .object [("version", .ofNat checkpoint.version.toNat), ("id", .string checkpoint.id.text),
    ("machine", .string checkpoint.machine), ("timestamp", .string checkpoint.timestamp.text),
    ("value", checkpoint.value.toJson), ("context", checkpoint.context.toJson),
    ("status", .string checkpoint.status.name), ("history", checkpoint.history.toJson)]

def text (checkpoint : Checkpoint) : String := checkpoint.toJson.pretty

def fieldNames : List String :=
  ["version", "id", "machine", "timestamp", "value", "context", "status", "history"]

def ofRaw? (raw : Json.Raw) : Option Checkpoint :=
  let depth := Json.depthLimit - 1
  match raw.record? fieldNames with
  | some (_, [some version, some id, some machine, some timestamp, some value, some context,
      some status, some history]) => do
    let version ← version.unsigned? 32
    let id ← id.string?.bind Uuid.ofText?
    let machine ← machine.string?
    let timestamp ← timestamp.string?.bind Timestamp.ofText?
    let value ← (value.eval? depth).bind StateValue.ofJson?
    let context ← (context.eval? depth).bind Context.ofJson?
    let status ← status.variant?.bind Status.ofName?
    let history ← History.ofRaw? 1 history
    return { version := .ofNat version, id, machine, timestamp, value, context, status, history }
  | _ => none

def checkVersion (checkpoint : Checkpoint) : Except CheckpointError Unit :=
  if checkpoint.version = checkpointVersion then .ok ()
  else .error (.unsupportedVersion checkpoint.version checkpointVersion)

def ofText (text : String) : Except CheckpointError Checkpoint :=
  match (Json.Raw.ofText? text).bind ofRaw? with
  | none => .error .malformed
  | some checkpoint => do
    checkpoint.checkVersion
    return checkpoint

end Checkpoint

namespace Interpreter

variable {Listener : Type}

/-- A checkpoint of an interpreter, under a given id and time. -/
def checkpoint (interpreter : Interpreter Listener) (definition : Definition) (id : Uuid)
    (timestamp : Timestamp) : Checkpoint where
  version := checkpointVersion
  id
  machine := definition.machineId
  timestamp
  value := interpreter.snapshot.value
  context := interpreter.snapshot.context
  status := interpreter.snapshot.status
  history := interpreter.history

end Interpreter

namespace Program

variable {σ Listener : Type} (program : Program σ Listener)

/-- The interpreter that goes on from a checkpoint. One marked active whose value is
final goes on as done. -/
def restore (limit : Option UInt64) (checkpoint : Checkpoint) :
    Except CheckpointError (Interpreter Listener) := do
  checkpoint.checkVersion
  let definition := program.definition
  if checkpoint.machine ≠ definition.machineId then
    throw (.machineMismatch definition.machineId checkpoint.machine)
  let tree := definition.toStateTree
  let configuration ← (Configuration.ofValue tree checkpoint.value).mapError .invalidValue
  let resumed := Lifecycle.resumed checkpoint.status
  let lifecycle :=
    if resumed = .running ∧ Configuration.isInFinal tree configuration StateTree.root then .done
    else resumed
  (program.registry.validate definition).mapError .definition
  return .assemble definition lifecycle configuration checkpoint.context
    (Interpreter.boundHistory limit checkpoint.history)

end Program

end Statechart
