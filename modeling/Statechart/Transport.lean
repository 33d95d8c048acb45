import Statechart.Json.Raw
import Statechart.Settings
import Statechart.Text.Blank

/-!
# The remote transport

What an inbound frame means, and when a lost connection is tried again.
-/

namespace Statechart

namespace Frame

def signal? : Json → Option String
  | .string text => if Text.allBlank text then none else some text
  | _ => none

/-- The signal that a frame carries: the frame itself if it is a text, or else its field
`signal`, or else its field `type`. -/
def decode? (frame : String) : Option String :=
  match Json.ofText? frame with
  | some (.object fields) =>
    let field name := ((Keyed.sort fields).lookup name).bind signal?
    (field "signal").or (field "type")
  | some value => signal? value
  | none => none

end Frame

inductive ConnectionStatus
  | disconnected
  | connected
  | error
  deriving DecidableEq

def ConnectionStatus.name : ConnectionStatus → String
  | .disconnected => "disconnected"
  | .connected => "connected"
  | .error => "error"

/-- Attempts at a fixed interval, as many as a budget allows. -/
structure ReconnectPolicy where
  interval : Duration
  maxAttempts : UInt32
  attempts : Nat := 0
  deriving DecidableEq

namespace ReconnectPolicy

def ofSettings (transport : TransportSettings) : ReconnectPolicy where
  interval := .ofMillis transport.reconnectMillis
  maxAttempts := transport.maxAttempts

/-- A connection succeeded: the budget starts over. -/
def connected (policy : ReconnectPolicy) : ReconnectPolicy := { policy with attempts := 0 }

/-- A connection was lost: the delay before the next attempt, while the budget lasts. -/
def disconnected (policy : ReconnectPolicy) : ReconnectPolicy × Option Duration :=
  if policy.maxAttempts.toNat ≤ policy.attempts then (policy, none)
  else ({ policy with attempts := policy.attempts + 1 }, some policy.interval)

end ReconnectPolicy

end Statechart
