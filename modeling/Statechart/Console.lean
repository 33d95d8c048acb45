import Statechart.Execution
import Statechart.Mission
import Statechart.Settings
import Statechart.Transport

/-!
# The console

A mission driven by lines of text. Every snapshot becomes a line of output, and every
line of input may carry a signal. The memory of the routines is the output so far.
-/

namespace Statechart

namespace Console

/-- The signal of a line: a frame if it looks like one, or else the line itself. -/
def signalOfLine? (line : String) : Option String :=
  let text := Text.trim line.toList
  match text with
  | [] => none
  | first :: _ =>
    if first = '\x7b' ∨ first = '"' then Frame.decode? (String.ofList text)
    else some (String.ofList text)

abbrev Output := List String

/-- The mission under given settings, with an observer that prints, and an interpreter
of it. -/
def session (settings : Settings) :
    Except DefinitionError (Program Output Unit × Interpreter Unit) := do
  let definition ← settings.machine.build
  let program : Program Output Unit :=
    { definition
      registry := Mission.defaultActions
      listen := fun _ snapshot => Routine.modify (· ++ [snapshot.toJson.compact]) }
  return (program, ← program.interpreter settings.historyLimit)

def opening : Routine Output Unit (Except InterpreterError Unit) := do
  let _ ← Routine.request (.subscribe ())
  Routine.request .start

def catchUp (elapsed : Duration) : Routine Output Unit Unit := do
  let _ ← Routine.request (.advance elapsed)

/-- Brings the clock up to date, and then sends the signal of a line. The mission goes on
after a failure. -/
def takeLine (elapsed : Duration) (line : String) : Routine Output Unit Unit :=
  match signalOfLine? line with
  | none => catchUp elapsed
  | some signal => do
    catchUp elapsed
    let _ ← Routine.request (.send signal)

/-- Takes lines that come without delay, until the mission has ended. -/
def takeLines : List String → Routine Output Unit Unit
  | [] => Routine.request .stop
  | line :: rest => do
    takeLine .zero line
    let interpreter ← Routine.request .look
    if interpreter.isRunning then takeLines rest else Routine.request .stop

def converse (lines : List String) : Routine Output Unit Unit := do
  match ← opening with
  | .ok () => takeLines lines
  | .error _ => return

end Console

end Statechart
