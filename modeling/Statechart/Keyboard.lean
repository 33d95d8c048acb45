import Statechart.Mission.Signals
import Statechart.Routine

/-!
# Keyboard shortcuts

A key sends a signal when its condition holds in the present snapshot. Keys do not
distinguish the case of ASCII letters.
-/

namespace Statechart

structure KeyBinding where
  key : Char
  signal : String
  applies : Snapshot → Bool

namespace KeyBinding

def bind (key : Char) (signal : String) (applies : Snapshot → Bool) : KeyBinding :=
  { key := key.toLower, signal, applies }

/-- A binding that applies while a path is active. -/
def whileAt (key : Char) (signal path : String) : KeyBinding :=
  bind key signal fun snapshot => snapshot.isAt path

end KeyBinding

/-- Bindings in order; the first that applies wins. -/
abbrev Keyboard := List KeyBinding

namespace Keyboard

def resolve? (keyboard : Keyboard) (key : Char) (snapshot : Snapshot) : Option String :=
  (keyboard.find? fun binding => binding.key == key.toLower && binding.applies snapshot).map
    (·.signal)

/-- Sends the signal of a key, if there is one now. -/
def dispatch {σ Listener : Type} (keyboard : Keyboard) (key : Char) :
    Routine σ Listener (Except InterpreterError (Option Delivery)) := do
  let interpreter ← Routine.request .look
  match keyboard.resolve? key interpreter.snapshot with
  | none => return .ok none
  | some signal =>
    let delivery ← Routine.request (.send signal)
    return delivery.map some

def mission : Keyboard :=
  [.whileAt '1' Mission.startSoi "Undeployed.Off",
    .whileAt '2' Mission.flightPlan "Undeployed",
    .whileAt '3' Mission.readyForMission "Undeployed",
    .whileAt '4' Mission.startSheepGuardMission "Undeployed",
    .whileAt '5' Mission.startPatrolling "Deployed",
    .whileAt '6' Mission.predatorDetected "Deployed"]

end Keyboard

end Statechart
