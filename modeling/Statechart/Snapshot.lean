import Statechart.Context
import Statechart.StateValue

/-!
# Snapshots

What observers see of a machine after a change.
-/

namespace Statechart

inductive Status
  | active
  | stopped
  | done
  deriving DecidableEq, Inhabited

namespace Status

def name : Status → String
  | .active => "active"
  | .stopped => "stopped"
  | .done => "done"

def ofName? (name : String) : Option Status :=
  if name = "active" then some .active
  else if name = "stopped" then some .stopped
  else if name = "done" then some .done
  else none

end Status

structure Snapshot where
  value : StateValue
  context : Context
  status : Status

namespace Snapshot

instance : Inhabited Snapshot := ⟨⟨default, .empty, .active⟩⟩

def isAt (snapshot : Snapshot) (path : String) : Bool := snapshot.value.isAt path

def isActive (snapshot : Snapshot) : Bool := snapshot.status == .active

def isDone (snapshot : Snapshot) : Bool := snapshot.status == .done

def toJson (snapshot : Snapshot) : Json :=
  .object [("value", snapshot.value.toJson), ("context", snapshot.context.toJson),
    ("status", .string snapshot.status.name)]

end Snapshot

end Statechart
