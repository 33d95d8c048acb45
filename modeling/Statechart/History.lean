import Statechart.Json.Record
import Statechart.StateValue
import Statechart.Timestamp

/-!
# Histories

The completed steps of a machine, oldest first. A bounded history keeps the latest
steps only.
-/

namespace Statechart

/-- A completed step: what triggered it, the values before and after, and when. -/
structure StepRecord where
  event : String
  source : StateValue
  target : StateValue
  timestamp : Timestamp
  deriving DecidableEq

structure History where
  records : List StepRecord := []
  limit : Option UInt64 := none
  deriving DecidableEq

namespace History

instance : Inhabited History := ⟨{}⟩

def bounded (limit : UInt64) : History := { limit := some limit }

/-- Adds a step, and drops the oldest ones beyond the limit. -/
def push (history : History) (record : StepRecord) : History :=
  match history.limit with
  | none => { history with records := history.records ++ [record] }
  | some limit =>
    if limit = 0 then history
    else
      let excess := history.records.length + 1 - limit.toNat
      { history with records := history.records.drop excess ++ [record] }

def pushAll (history : History) (records : List StepRecord) : History :=
  records.foldl push history

/-- The values passed through: where the first step began, and where each step led. -/
def path (history : History) : List StateValue :=
  (history.records.head?.map (·.source)).toList ++ history.records.map (·.target)

/-- The time between the first and the last step. -/
def duration? (history : History) : Option Duration := do
  let first ← history.records.head?
  let last ← history.records.getLast?
  last.timestamp.since? first.timestamp

def size (history : History) : Nat := history.records.length

def isEmpty (history : History) : Bool := history.records.isEmpty

end History

namespace StepRecord

def toJson (record : StepRecord) : Json :=
  .object [("event", .string record.event), ("from", record.source.toJson),
    ("to", record.target.toJson), ("timestamp", .string record.timestamp.text)]

/-- Reads a record that lies inside a number of enclosing arrays and objects. -/
def ofRaw? (enclosing : Nat) (raw : Json.Raw) : Option StepRecord :=
  let depth := Json.depthLimit - enclosing - 1
  match raw.record? ["event", "from", "to", "timestamp"] with
  | some (_, [some event, some source, some target, some timestamp]) => do
    let event ← event.string?
    let source ← (source.eval? depth).bind StateValue.ofJson?
    let target ← (target.eval? depth).bind StateValue.ofJson?
    let timestamp ← timestamp.string?.bind Timestamp.ofText?
    return { event, source, target, timestamp }
  | _ => none

end StepRecord

namespace History

def limitToJson : Option UInt64 → Json
  | none => .null
  | some limit => .ofUInt64 limit

def toJson (history : History) : Json :=
  .object [("records", .array (history.records.map StepRecord.toJson)),
    ("limit", limitToJson history.limit)]

/-- Reads a limit; by name it may be left out. -/
def limitOfRaw? (named : Bool) : Option Json.Raw → Option (Option UInt64)
  | none => if named then some none else none
  | some raw => Json.Raw.optional? (fun raw => (raw.unsigned? 64).map UInt64.ofNat) raw

/-- Reads a history that lies inside a number of enclosing arrays and objects. -/
def ofRaw? (enclosing : Nat) (raw : Json.Raw) : Option History :=
  match raw.record? ["records", "limit"] with
  | some (named, [some (.array records), limit]) => do
    let records ← records.mapM (StepRecord.ofRaw? (enclosing + 2))
    let limit ← limitOfRaw? named limit
    return { records, limit }
  | _ => none

def ofText? (text : String) : Option History := (Json.Raw.ofText? text).bind (ofRaw? 0)

end History

end Statechart
