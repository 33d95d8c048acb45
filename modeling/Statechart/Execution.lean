import Statechart.Routine

/-!
# Execution

One small step at a time. Work in progress is a stack: routines that wait for an
answer, steps that wait for an action, notifications that wait for a listener. Any
routine may make any request at any depth; whether that nests, queues or is refused is
decided by the state of the interpreter alone.
-/

namespace Statechart

/-- What an interpreter runs: a definition, the actions and guards bound to it, and the
routine of every listener. -/
structure Program (σ Listener : Type) where
  definition : Definition
  registry : Registry σ Listener
  listen : Listener → Snapshot → Routine σ Listener Unit

/-- A pass over the queue: the delivery of its first signal and its first failure so far,
and the work that goes on with the result. -/
structure Drain (Work : Type) where
  first : Option Delivery := none
  failure : Option InterpreterError := none
  resume : Except InterpreterError Delivery → Work

namespace Drain

variable {Work : Type}

def note (drain : Drain Work) : Except InterpreterError Delivery → Drain Work
  | .ok delivery => { drain with first := drain.first.or (some delivery) }
  | .error error =>
    { drain with
      first := drain.first.or (some .rejected)
      failure := drain.failure.or (some error) }

/-- The first failure, or else the delivery of the first signal. -/
def result (drain : Drain Work) : Except InterpreterError Delivery :=
  match drain.failure with
  | some error => .error error
  | none => .ok (drain.first.getD .ignored)

end Drain

/-- Why a step runs, and what goes on after it. -/
inductive Origin (Work : Type)
  /-- The initial entry of `start`. -/
  | start (resume : Except InterpreterError Unit → Work)
  /-- A signal of the queue, with the timer that sent it. -/
  | signal (fired : Option (TimerKey × Nat)) (drain : Drain Work)

namespace Origin

variable {Work : Type}

def fired : Origin Work → Option (TimerKey × Nat)
  | .start _ => none
  | .signal fired _ => fired

def isRecorded : Origin Work → Bool
  | .start _ => false
  | .signal _ _ => true

end Origin

/-- A step in progress: the actions still to run, and the working copies that become
visible only when all have succeeded. -/
structure RunningStep (Work : Type) where
  origin : Origin Work
  event : String
  plan : Plan
  pending : List Invocation
  context : Context
  raised : List String := []

namespace RunningStep

variable {Work : Type}

def begin (origin : Origin Work) (event : String) (plan : Plan) (context : Context) :
    RunningStep Work :=
  { origin, event, plan, pending := plan.invocations, context }

def result (step : RunningStep Work) : StepResult where
  event := step.event
  fired := step.origin.fired
  recorded := step.origin.isRecorded
  plan := step.plan
  context := step.context
  raised := step.raised

end RunningStep

inductive Work (σ Listener : Type)
  /-- A routine that drives the machine from outside. -/
  | client (code : Routine σ Listener Unit)
  | acting (step : RunningStep (Work σ Listener)) (call : Invocation)
      (code : Routine σ Listener (Except String ActionEffect))
  | stepping (step : RunningStep (Work σ Listener))
  | listening (code : Routine σ Listener Unit)
  /-- The subscribers that a snapshot still has to reach. -/
  | notifying (subscribers : List (Nat × Listener)) (snapshot : Snapshot)
  | draining (drain : Drain (Work σ Listener))
  /-- Moving the clock up to a limit, with the number of timers fired so far. -/
  | advancing (limit : Duration) (fired : Nat)
      (resume : Except InterpreterError Nat → Work σ Listener)

/-- A machine with its shared memory and the work in progress, innermost first. -/
structure Execution (σ Listener : Type) where
  interpreter : Interpreter Listener
  memory : σ
  work : List (Work σ Listener) := []
  /-- A deadline or a reading of the clock was beyond its range; all work was dropped. -/
  overflowed : Bool := false

namespace Execution

variable {σ Listener : Type} (program : Program σ Listener) (now : Timestamp)

def noticeWork : Option (List (Nat × Listener) × Snapshot) → List (Work σ Listener)
  | some (subscribers, snapshot) => [.notifying subscribers snapshot]
  | none => []

/-- Drops all work because a sum left the range of the clock. -/
def overflow (execution : Execution σ Listener) (interpreter : Interpreter Listener) :
    Execution σ Listener :=
  { execution with interpreter, work := [], overflowed := true }

/-- Puts a signal into the queue, and processes the queue unless that is being done. -/
def deliver (execution : Execution σ Listener) (signal : Signal)
    (resume : Except InterpreterError Delivery → Work σ Listener)
    (rest : List (Work σ Listener)) : Execution σ Listener :=
  if !execution.interpreter.isRunning then
    { execution with work := resume (.ok .rejected) :: rest }
  else
    let interpreter := execution.interpreter.enqueue signal
    if interpreter.busy then
      { execution with interpreter, work := resume (.ok .queued) :: rest }
    else
      { execution with
        interpreter := { interpreter with busy := true }
        work := .draining { resume } :: rest }

/-- Meets a request of a routine that waits on top of other work. -/
def meet (execution : Execution σ Listener) (rest : List (Work σ Listener)) :
    (request : Request Listener) → (request.Answer → Work σ Listener) → Execution σ Listener
  | .start, resume =>
    if execution.interpreter.lifecycle ≠ .notStarted then
      { execution with work := resume (.error .alreadyStarted) :: rest }
    else
      let step : RunningStep (Work σ Listener) :=
        .begin (.start resume) initEvent program.definition.initialPlan program.definition.context
      { execution with
        interpreter := { execution.interpreter with lifecycle := .running, busy := true }
        work := .stepping step :: rest }
  | .send event, resume => execution.deliver (.event event) resume rest
  | .stop, resume =>
    let (interpreter, notice) := execution.interpreter.stop
    { execution with interpreter, work := noticeWork notice ++ resume () :: rest }
  | .advance span, resume =>
    if !execution.interpreter.isRunning then { execution with work := resume (.ok 0) :: rest }
    else
      match execution.interpreter.now.add? span with
      | some limit => { execution with work := .advancing limit 0 resume :: rest }
      | none => execution.overflow execution.interpreter
  | .subscribe listener, resume =>
    let (interpreter, number) := execution.interpreter.subscribe listener
    { execution with interpreter, work := resume number :: rest }
  | .unsubscribe number, resume =>
    let (interpreter, found) := execution.interpreter.unsubscribe number
    { execution with interpreter, work := resume found :: rest }
  | .can event, resume =>
    let interpreter := execution.interpreter
    let answer := interpreter.isRunning &&
      !(program.definition.select program.registry.guard? interpreter.configuration
        interpreter.context event).isEmpty
    { execution with work := resume answer :: rest }
  | .look, resume => { execution with work := resume execution.interpreter :: rest }

def proceed {α : Type} (execution : Execution σ Listener) (rest : List (Work σ Listener))
    (around : Routine σ Listener α → Work σ Listener)
    (finish : α → Execution σ Listener) : Routine σ Listener α → Execution σ Listener
  | .done result => finish result
  | .read next => { execution with work := around (next execution.memory) :: rest }
  | .write memory next => { execution with memory, work := around next :: rest }
  | .ask request next => execution.meet program rest request fun answer => around (next answer)

def stepOf? (interpreter : Interpreter Listener) (drain : Drain (Work σ Listener)) :
    Signal → Option (RunningStep (Work σ Listener))
  | .event name =>
    let definition := program.definition
    match definition.select program.registry.guard? interpreter.configuration
      interpreter.context name with
    | [] => none
    | transitions =>
      some <| .begin (.signal none drain) name
        (definition.plan interpreter.configuration transitions) interpreter.context
  | .timer key generation =>
    if interpreter.timers.isCurrent key generation then
      (program.definition.delayed? key).map fun delayed =>
        .begin (.signal (some (key, generation)) drain) delayed.transition.event
          (program.definition.plan interpreter.configuration [delayed.transition])
          interpreter.context
    else none

/-- Takes the next signal from the queue, or ends the pass when there is none. -/
def drainNext (execution : Execution σ Listener) (rest : List (Work σ Listener))
    (drain : Drain (Work σ Listener)) : Execution σ Listener :=
  match execution.interpreter.queue with
  | [] =>
    let (interpreter, notice) := execution.interpreter.release
    { execution with interpreter, work := noticeWork notice ++ drain.resume drain.result :: rest }
  | signal :: queue =>
    let interpreter := { execution.interpreter with queue }
    if !interpreter.isRunning then
      { execution with interpreter, work := .draining (drain.note (.ok .rejected)) :: rest }
    else
      match stepOf? program interpreter drain signal with
      | some step => { execution with interpreter, work := .stepping step :: rest }
      | none =>
        { execution with interpreter, work := .draining (drain.note (.ok .ignored)) :: rest }

def abort (execution : Execution σ Listener) (rest : List (Work σ Listener))
    (step : RunningStep (Work σ Listener)) (error : InterpreterError) : Execution σ Listener :=
  match step.origin with
  | .start resume =>
    let (interpreter, notice) := execution.interpreter.abandonStart
    { execution with interpreter, work := noticeWork notice ++ resume (.error error) :: rest }
  | .signal fired drain =>
    let timers :=
      match fired with
      | some (key, generation) => execution.interpreter.timers.rearm key generation
      | none => execution.interpreter.timers
    { execution with
      interpreter := { execution.interpreter with timers }
      work := .draining (drain.note (.error error)) :: rest }

/-- The pass over the queue that follows a step. -/
def drainAfter (origin : Origin (Work σ Listener)) (delivery : Delivery) :
    Drain (Work σ Listener) :=
  match origin with
  | .start resume => { resume := fun result => resume (result.map fun _ => ()) }
  | .signal _ drain => drain.note (.ok delivery)

def finish (execution : Execution σ Listener) (rest : List (Work σ Listener))
    (step : RunningStep (Work σ Listener)) : Execution σ Listener :=
  match execution.interpreter.commit program.definition now step.result with
  | .discarded =>
    { execution with work := .draining (drainAfter step.origin .rejected) :: rest }
  | .overflow interpreter => execution.overflow interpreter
  | .published interpreter =>
    { execution with
      interpreter
      work := .notifying interpreter.listeners interpreter.snapshot ::
        .draining (drainAfter step.origin .processed) :: rest }

/-- Runs the next action of a step, or commits the step. -/
def stepNext (execution : Execution σ Listener) (rest : List (Work σ Listener))
    (step : RunningStep (Work σ Listener)) : Execution σ Listener :=
  match step.pending with
  | [] => execution.finish program now rest step
  | call :: pending =>
    let step := { step with pending }
    match program.registry.action? call.action with
    | none => { execution with work := .stepping step :: rest }
    | some action =>
      let code := action ⟨step.context, step.event, (program.definition.node call.state).id⟩
      { execution with work := .acting step call code :: rest }

def actionDone (execution : Execution σ Listener) (rest : List (Work σ Listener))
    (step : RunningStep (Work σ Listener)) (call : Invocation) :
    Except String ActionEffect → Execution σ Listener
  | .ok effect =>
    let step := { step with context := effect.context, raised := step.raised ++ effect.raised }
    { execution with work := .stepping step :: rest }
  | .error reason =>
    let state := (program.definition.node call.state).id
    execution.abort rest step (.actionFailed call.action state step.event reason)

/-- Fires the next timer that is due, or ends the move of the clock. -/
def advanceNext (execution : Execution σ Listener) (rest : List (Work σ Listener))
    (limit : Duration) (fired : Nat) (resume : Except InterpreterError Nat → Work σ Listener) :
    Execution σ Listener :=
  let interpreter := execution.interpreter
  let due := if interpreter.isRunning then interpreter.timers.pop? limit else none
  match due with
  | none =>
    { execution with
      interpreter := { interpreter with timers := interpreter.timers.settle limit }
      work := resume (.ok fired) :: rest }
  | some (timer, timers) =>
    deliver { execution with interpreter := { interpreter with timers } }
      (.timer timer.key timer.generation)
      (fun
        | .ok _ => .advancing limit (fired + 1) resume
        | .error error => resume (.error error))
      rest

/-- One small step; nothing when no work is left. -/
def step? (execution : Execution σ Listener) : Option (Execution σ Listener) :=
  match execution.work with
  | [] => none
  | .client code :: rest =>
    some <| execution.proceed program rest .client (fun _ => { execution with work := rest }) code
  | .listening code :: rest =>
    some <| execution.proceed program rest .listening (fun _ => { execution with work := rest })
      code
  | .acting step call code :: rest =>
    some <| execution.proceed program rest (.acting step call)
      (execution.actionDone program rest step call) code
  | .stepping step :: rest => some (execution.stepNext program now rest step)
  | .notifying [] _ :: rest => some { execution with work := rest }
  | .notifying ((_, listener) :: subscribers) snapshot :: rest =>
    some { execution with
      work :=
        .listening (program.listen listener snapshot) :: .notifying subscribers snapshot :: rest }
  | .draining drain :: rest => some (execution.drainNext program rest drain)
  | .advancing limit fired resume :: rest => some (execution.advanceNext rest limit fired resume)

/-- A number of small steps, or fewer if the work is done before. -/
def run : Nat → Execution σ Listener → Execution σ Listener
  | 0, execution => execution
  | count + 1, execution =>
    match execution.step? program now with
    | none => execution
    | some next => run count next

def ofClient (interpreter : Interpreter Listener) (memory : σ) (code : Routine σ Listener Unit) :
    Execution σ Listener :=
  { interpreter, memory, work := [.client code] }

end Execution

namespace Program

variable {σ Listener : Type} (program : Program σ Listener)

/-- An interpreter that has not been started, if everything the definition names is
provided. -/
def interpreter (limit : Option UInt64) : Except DefinitionError (Interpreter Listener) := do
  program.registry.validate program.definition
  return .fresh program.definition limit

end Program

end Statechart
