import Statechart.CommandLine
import Statechart.Console

/-!
# The program

Serves the mission on the terminal: signals come in on lines, snapshots go out on
lines. Wall time is mapped onto the clock of the interpreter.
-/

namespace Statechart.Console

structure Service where
  program : Program Output Unit
  interpreter : Interpreter Unit
  /-- When the clock was last brought up to date, in nanoseconds. -/
  readAt : Nat

/-- Does all the work of an execution. The times of the history are never shown, so they
stand still. -/
partial def complete (program : Program Output Unit) (execution : Execution Output Unit) :
    Execution Output Unit :=
  match execution.step? program default with
  | none => execution
  | some next => complete program next

namespace Service

/-- Runs a routine and prints the lines that it adds. -/
def perform (service : Service) (code : Routine Output Unit Unit) : IO Service := do
  let last := complete service.program (.ofClient service.interpreter [] code)
  let output ← IO.getStdout
  last.memory.forM output.putStrLn
  output.flush
  return { service with interpreter := last.interpreter }

def elapsed (service : Service) : IO (Duration × Service) := do
  let now ← IO.monoNanosNow
  return ((Duration.ofNanos? (now - service.readAt)).getD .zero, { service with readAt := now })

/-- Waits for a line, and lets timers fire that fall due before. -/
partial def await (service : Service) (line : Task (Except IO.Error String)) :
    IO (Service × String) := do
  if service.interpreter.nextDeadline?.isNone || (← IO.hasFinished line) then
    return (service, ← IO.ofExcept (← IO.wait line))
  IO.sleep 1
  let (span, service) ← service.elapsed
  (← service.perform (catchUp span)).await line

partial def serve (service : Service) (input : IO.FS.Stream) : IO Unit := do
  let (service, line) ← service.await (← IO.asTask input.getLine .dedicated)
  if line.isEmpty then
    let _ ← service.perform (Routine.request .stop)
  else
    let (span, service) ← service.elapsed
    let service ← service.perform (takeLine span line)
    if service.interpreter.isRunning then service.serve input
    else
      let _ ← service.perform (Routine.request .stop)

end Service

def readFile (path : String) : IO (Except String String) := do
  match ← (IO.FS.readFile path).toBaseIO with
  | .ok text => return .ok text
  | .error error => return .error (toString error)

/-- Why a run ended early; it ends with the code 1. -/
def refuse (message : String) : IO UInt32 := do
  IO.eprintln message
  return 1

def runWith (options : CommandOptions) : IO UInt32 := do
  let content ← options.settingsFile.elim (pure (.ok "")) readFile
  match options.settings fun _ => content with
  | .error error => refuse error.message
  | .ok settings =>
    match session settings with
    | .error error => refuse error.message
    | .ok (program, interpreter) =>
      let service : Service := { program, interpreter, readAt := ← IO.monoNanosNow }
      let service ← service.perform do
        let _ ← opening
      service.serve (← IO.getStdin)
      return 0

end Statechart.Console

open Statechart in
def main (arguments : List String) : IO UInt32 := do
  match CommandOptions.read? arguments with
  | none =>
    IO.eprintln CommandOptions.usage
    return 2
  | some .help =>
    IO.println CommandOptions.usage
    return 0
  | some (.run options) => Console.runWith options
