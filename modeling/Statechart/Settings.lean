import Statechart.Json.Printer
import Statechart.Json.Record
import Statechart.Mission

/-!
# Settings

The settings of one process. Every setting has a default, so a text needs to hold only
what it changes.
-/

namespace Statechart

/-- When a lost connection is tried again, and how often. -/
structure TransportSettings where
  reconnectMillis : UInt64 := 3000
  maxAttempts : UInt32 := 5
  deriving DecidableEq

namespace TransportSettings

def toJson (transport : TransportSettings) : Json :=
  .object [("reconnect_interval_ms", .ofUInt64 transport.reconnectMillis),
    ("max_reconnect_attempts", .ofNat transport.maxAttempts.toNat)]

def ofRaw? (raw : Json.Raw) : Option TransportSettings :=
  let default : TransportSettings := {}
  match raw.record? ["reconnect_interval_ms", "max_reconnect_attempts"] with
  | some (_, [interval, attempts]) => do
    let reconnectMillis ← Json.Raw.orDefault? default.reconnectMillis
      (fun raw => (raw.unsigned? 64).map .ofNat) interval
    let maxAttempts ← Json.Raw.orDefault? default.maxAttempts
      (fun raw => (raw.unsigned? 32).map .ofNat) attempts
    return { reconnectMillis, maxAttempts }
  | _ => none

end TransportSettings

structure Settings where
  variant : MissionVariant := .eventDriven
  escalationMillis : UInt64 := 2000
  /-- How many steps the history keeps; all of them when absent. -/
  historyLimit : Option UInt64 := some 256
  transport : TransportSettings := {}
  deriving DecidableEq

inductive SettingsError
  | unreadable (path reason : String)
  | malformed

def SettingsError.message : SettingsError → String
  | .unreadable path reason => s!"Failed to read config file {path}: {reason}"
  | .malformed => "Invalid config"

namespace Settings

def escalation (settings : Settings) : Duration := .ofMillis settings.escalationMillis

def toJson (settings : Settings) : Json :=
  .object [("variant", .string settings.variant.name),
    ("escalation_ms", .ofUInt64 settings.escalationMillis),
    ("history_limit", match settings.historyLimit with
      | none => .null
      | some limit => .ofUInt64 limit),
    ("transport", settings.transport.toJson)]

def ofRaw? (raw : Json.Raw) : Option Settings :=
  let default : Settings := {}
  match raw.record? ["variant", "escalation_ms", "history_limit", "transport"] with
  | some (_, [variant, escalation, limit, transport]) => do
    let variant ← Json.Raw.orDefault? default.variant
      (fun raw => raw.variant?.bind MissionVariant.ofName?) variant
    let escalationMillis ← Json.Raw.orDefault? default.escalationMillis
      (fun raw => (raw.unsigned? 64).map .ofNat) escalation
    let historyLimit ← Json.Raw.orDefault? default.historyLimit
      (Json.Raw.optional? fun raw => (raw.unsigned? 64).map .ofNat) limit
    let transport ← Json.Raw.orDefault? default.transport TransportSettings.ofRaw? transport
    return { variant, escalationMillis, historyLimit, transport }
  | _ => none

def ofText (text : String) : Except SettingsError Settings :=
  match (Json.Raw.ofText? text).bind ofRaw? with
  | some settings => .ok settings
  | none => .error .malformed

/-- The settings of a file, given its text or why it cannot be read. -/
def ofFile (path : String) : Except String String → Except SettingsError Settings
  | .ok text => ofText text
  | .error reason => .error (.unreadable path reason)

def machine (settings : Settings) : MachineSpec :=
  Mission.spec settings.variant settings.escalation

end Settings

end Statechart
