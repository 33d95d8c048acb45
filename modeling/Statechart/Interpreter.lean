import Statechart.History
import Statechart.Snapshot
import Statechart.Step.Plan
import Statechart.Timers

/-!
# The state of an interpreter

What an interpreter remembers between two pieces of work: the committed state of its
machine, the queue of signals, and its subscribers. Listeners are named by tokens;
what they do is part of the program, not of this state.
-/

namespace Statechart

inductive Delivery
  /-- A step ran and a snapshot was published. -/
  | processed
  /-- No active state handles the signal. -/
  | ignored
  /-- A step was in progress; the signal waits in the queue. -/
  | queued
  | rejected
  deriving DecidableEq, Inhabited

def Delivery.name : Delivery → String
  | .processed => "processed"
  | .ignored => "ignored"
  | .queued => "queued"
  | .rejected => "rejected"

inductive InterpreterError
  | alreadyStarted
  | actionFailed (action state event reason : String)
  deriving DecidableEq, Inhabited

def InterpreterError.message : InterpreterError → String
  | .alreadyStarted => "Interpreter has already been started"
  | .actionFailed action state event reason =>
    s!"Action '{action}' failed in state '{state}' while processing '{event}': {reason}"

inductive Signal
  | event (name : String)
  | timer (key : TimerKey) (generation : Nat)
  deriving DecidableEq

inductive Lifecycle
  | notStarted
  | running
  | done
  | stopped
  deriving DecidableEq, Inhabited

namespace Lifecycle

def status : Lifecycle → Status
  | .notStarted | .running => .active
  | .done => .done
  | .stopped => .stopped

/-- Where a machine resumes whose status was saved. -/
def resumed : Status → Lifecycle
  | .active => .running
  | .done => .done
  | .stopped => .stopped

end Lifecycle

/-- The event that entry actions see when a machine starts. -/
def initEvent : String := "init"

structure Interpreter (Listener : Type) where
  lifecycle : Lifecycle
  configuration : Configuration
  context : Context
  history : History
  timers : Timers
  snapshot : Snapshot
  queue : List Signal := []
  /-- A step or its notifications are in progress. -/
  busy : Bool := false
  /-- The last notification, put off until the work in progress is over. -/
  pendingStop : Option (List (Nat × Listener) × Snapshot) := none
  listeners : List (Nat × Listener) := []
  subscriptions : Nat := 0

namespace Interpreter

variable {Listener : Type} (interpreter : Interpreter Listener)

def isRunning : Bool := interpreter.lifecycle == .running

def status : Status := interpreter.snapshot.status

def now : Duration := interpreter.timers.now

def nextDeadline? : Option Duration := interpreter.timers.nextDeadline?

def subscriberCount : Nat := interpreter.listeners.length

/-- Adds a subscriber, unless the interpreter has been stopped; returns its number. -/
def subscribe (listener : Listener) : Interpreter Listener × Nat :=
  let number := interpreter.subscriptions + 1
  ({ interpreter with
      subscriptions := number
      listeners :=
        if interpreter.lifecycle = .stopped then interpreter.listeners
        else interpreter.listeners ++ [(number, listener)] },
    number)

/-- Drops a subscriber; returns whether it was there. -/
def unsubscribe (number : Nat) : Interpreter Listener × Bool :=
  ({ interpreter with listeners := interpreter.listeners.filter (·.1 ≠ number) },
    interpreter.listeners.any (·.1 == number))

/-- Halts the interpreter: cancels timers and signals and detaches every subscriber.
Returns the last notification, unless the machine has ended before or the notification
is put off. -/
def stop : Interpreter Listener × Option (List (Nat × Listener) × Snapshot) :=
  match interpreter.lifecycle with
  | .stopped => (interpreter, none)
  | .done =>
    ({ interpreter with timers := interpreter.timers.clear, queue := [], listeners := [] }, none)
  | .notStarted | .running =>
    let snapshot := { interpreter.snapshot with status := .stopped }
    let notice := (interpreter.listeners, snapshot)
    let halted := { interpreter with
      timers := interpreter.timers.clear, queue := [], listeners := []
      lifecycle := .stopped, snapshot }
    if interpreter.busy then ({ halted with pendingStop := some notice }, none)
    else (halted, some notice)

def enqueue (signal : Signal) : Interpreter Listener :=
  { interpreter with queue := interpreter.queue ++ [signal] }

/-- Ends the work in progress; returns the notification that was put off. -/
def release : Interpreter Listener × Option (List (Nat × Listener) × Snapshot) :=
  ({ interpreter with busy := false, pendingStop := none }, interpreter.pendingStop)

/-- Gives a failed start back: signals that came meanwhile are dropped. -/
def abandonStart : Interpreter Listener × Option (List (Nat × Listener) × Snapshot) :=
  let lifecycle :=
    if interpreter.lifecycle = .running then .notStarted else interpreter.lifecycle
  release { interpreter with lifecycle, queue := [] }

end Interpreter

/-- What a step is to commit: how it was triggered, what it exits and enters, and what
its actions made of the context. -/
structure StepResult where
  event : String
  fired : Option (TimerKey × Nat)
  recorded : Bool
  plan : Plan
  context : Context
  raised : List String

/-- What becomes of a step that has run all its actions. -/
inductive Commit (Listener : Type)
  /-- The interpreter was stopped meanwhile. -/
  | discarded
  | published (interpreter : Interpreter Listener)
  /-- A deadline is beyond the range of the clock. -/
  | overflow (interpreter : Interpreter Listener)

namespace Interpreter

variable {Listener : Type} (definition : Definition) (interpreter : Interpreter Listener)

/-- The timers after a step, and whether all that were due to be armed could be. -/
def timersAfter (step : StepResult) : Timers × Bool :=
  let timers :=
    match step.fired with
    | some (key, _) => interpreter.timers.remove key
    | none => interpreter.timers
  (timers.disarmAll step.plan.exited).armAll (definition.timersOf step.plan.entered)

def commit (now : Timestamp) (step : StepResult) : Commit Listener :=
  if interpreter.lifecycle ≠ .running then .discarded
  else
    match interpreter.timersAfter definition step with
    | (timers, false) => .overflow { interpreter with timers }
    | (timers, true) =>
      let tree := definition.toStateTree
      let configuration := step.plan.configuration
      let done := Configuration.isInFinal tree configuration StateTree.root
      let value := Configuration.value tree configuration
      let record : StepRecord :=
        ⟨step.event, interpreter.snapshot.value, value, now⟩
      let lifecycle := if done then .done else interpreter.lifecycle
      .published { interpreter with
        lifecycle, configuration
        context := step.context
        timers := if done then timers.clear else timers
        history := if step.recorded then interpreter.history.push record else interpreter.history
        snapshot := ⟨value, step.context, lifecycle.status⟩
        queue :=
          if done then interpreter.queue
          else interpreter.queue ++ step.raised.map .event }

/-- The interpreter of a machine at a configuration, before anything has happened. -/
def assemble (lifecycle : Lifecycle) (configuration : Configuration) (context : Context)
    (history : History) : Interpreter Listener where
  lifecycle
  configuration
  context
  history
  timers :=
    if lifecycle = .running then
      (({} : Timers).armAll (definition.timersOf configuration.toList)).1
    else {}
  snapshot := ⟨Configuration.value definition.toStateTree configuration, context,
    lifecycle.status⟩

/-- The history that a new interpreter continues: as it is, or the latest steps of it. -/
def boundHistory (limit : Option UInt64) (history : History) : History :=
  match limit with
  | none => history
  | some limit => (History.bounded limit).pushAll history.records

def fresh (limit : Option UInt64) : Interpreter Listener :=
  assemble definition .notStarted definition.initialConfiguration definition.context
    (boundHistory limit {})

end Interpreter

/-- How many steps an interpreter remembers unless it is told. -/
def defaultHistoryLimit : Option UInt64 := some 256

end Statechart
