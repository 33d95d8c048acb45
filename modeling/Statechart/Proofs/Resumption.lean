import Statechart.Proofs.Answers
import Statechart.Proofs.Restoration

/-!
# Resumption

A machine that goes on from its checkpoint cannot be told from the one that was saved, as long
as it is sent events and its clock is not moved. Both make the same small steps: no step looks
at the timers, and what a step makes of them is not seen.
-/

namespace Statechart

variable {σ Listener : Type}

/-- Actions make no requests. -/
def Registry.Silent (registry : Registry σ Listener) : Prop :=
  ∀ name action, registry.action? name = some action → ∀ call, (action call).Silent

/-- Two machines to which nobody listens and for which no timer has sent a signal: they differ
in their timers, in their count of subscriptions and in the dates in their histories. The clock
of the second is not ahead of that of the first. -/
structure Standing.Twin (s t : Standing σ Listener) : Prop where
  interpreter : t.1 = { s.1 with
    timers := t.1.timers, subscriptions := t.1.subscriptions, history := t.1.history }
  history : t.1.history.undated = s.1.history.undated
  memory : t.2 = s.2
  alone : s.1.listeners = []
  events : ∀ signal ∈ s.1.queue, ∃ name, signal = .event name
  noStop : s.1.pendingStop = none
  notAhead : t.1.now.nanos ≤ s.1.now.nanos

/-- A machine that nothing is done with is a twin of itself. -/
theorem Standing.Twin.refl {s : Standing σ Listener} (idle : s.Idle)
    (alone : s.1.listeners = []) : s.Twin s where
  interpreter := rfl
  history := rfl
  memory := rfl
  alone := alone
  events := by simp [idle.queue]
  noStop := idle.pendingStop
  notAhead := le_rfl

/-- Some timer would be due beyond the range of a clock. -/
def Definition.DelaysBeyond (definition : Definition) (now : Duration) : Prop :=
  ∃ key delayed, definition.delayed? key = some delayed ∧ now.add? delayed.delay = none

namespace Interpreter

variable {definition : Definition} {step : StepResult}

/-- While the clock is at its beginning all timers can be armed. -/
theorem timersAfter_of_zero (definition : Definition) (step : StepResult)
    (i : Interpreter Listener) (atZero : i.now = .zero) :
    ∃ timers, i.timersAfter definition step = (timers, true) ∧ timers.now = .zero := by
  have complete : (i.timersAfter definition step).2 = true := by
    rw [timersAfter_eq]
    apply Timers.arms_at_zero
    rw [(Timers.disarmAll_eq _).1, (Timers.without_eq _ _).1]
    exact atZero
  exact ⟨_, Prod.ext rfl complete, (i.now_timersAfter definition step).trans atZero⟩

theorem delaysBeyond_of_overflow {i halted : Interpreter Listener} {now : Timestamp}
    (overflows : i.commit definition now step = .overflow halted) :
    definition.DelaysBeyond i.now := by
  obtain ⟨_, ⟨key, delay⟩, isEntered, beyond⟩ := beyond_of_overflow overflows
  obtain ⟨_, delayed, found, rfl⟩ := Definition.mem_timersOf.1 isEntered
  exact ⟨key, delayed, found, beyond⟩

/-- What a step makes of a machine does not depend on its timers, as long as its deadlines are
within the range of the clock. -/
theorem commit_of_notAhead {i after : Interpreter Listener} {now : Timestamp}
    (isPublished : i.commit definition now step = .published after) (other : Timestamp)
    (timers : Timers) (subscriptions : Nat) (history : History)
    (notAhead : timers.now.nanos ≤ i.now.nanos)
    (sameHistory : history.undated = i.history.undated) :
    ∃ timers' history',
      Interpreter.commit definition { i with timers, subscriptions, history } other step =
        .published { after with timers := timers', subscriptions, history := history' } ∧
      timers'.now = timers.now ∧ history'.undated = after.history.undated := by
  let j : Interpreter Listener := { i with timers, subscriptions, history }
  have published := published_of_commit isPublished
  have complete : (j.timersAfter definition step).2 = true := by
    obtain ⟨_, isArmed, _⟩ := published.outcome
    have fits : (i.timersAfter definition step).2 = true := congrArg Prod.snd isArmed
    rw [← Bool.not_eq_false, timersAfter_incomplete_iff] at fits ⊢
    rintro ⟨entry, isEntered, beyond⟩
    refine fits ⟨entry, isEntered, ?_⟩
    rw [Duration.add?_eq_none] at beyond ⊢
    exact beyond.trans (Nat.add_le_add_right notAhead _)
  obtain ⟨armed, arms, still⟩ :
      ∃ armed, j.timersAfter definition step = (armed, true) ∧ armed.now = timers.now :=
    ⟨_, Prod.ext rfl complete, j.now_timersAfter definition step⟩
  have isRunning : j.lifecycle = .running := published.wasRunning
  rw [commit, if_neg (not_not_intro isRunning), arms]
  rw [commit, if_neg (not_not_intro published.wasRunning)] at isPublished
  split at isPublished
  · cases isPublished
  · cases isPublished
    refine ⟨_, _, rfl, ?_, ?_⟩
    · split
      · exact still
      · exact still
    · split
      · simp only [History.undated_push, sameHistory]
        rfl
      · exact sameHistory

/-- Only the events that its actions raise are added by a step. -/
theorem Published.events {before after : Interpreter Listener} {now : Timestamp}
    (published : Published definition now step before after)
    (events : ∀ signal ∈ before.queue, ∃ name, signal = .event name) :
    ∀ signal ∈ after.queue, ∃ name, signal = .event name := by
  obtain ⟨_, _, ⟨_, _, sameQueue⟩ | ⟨_, _, longer⟩⟩ := published.outcome
  · rwa [sameQueue]
  · rw [longer]
    intro signal member
    rcases List.mem_append.1 member with waits | isRaised
    · exact events signal waits
    · obtain ⟨name, _, rfl⟩ := List.mem_map.1 isRaised
      exact ⟨name, rfl⟩

end Interpreter

/-- The work on an event that is sent, for the code that is to go on with the answer. -/
abbrev Thread (σ Listener : Type) :=
  (Except InterpreterError Delivery → Routine σ Listener Unit) → List (Work σ Listener)

namespace Thread

def asking (event : String) : Thread σ Listener := fun next => [.client (.ask (.send event) next)]

def draining (first : Option Delivery) (failure : Option InterpreterError) : Thread σ Listener :=
  fun next => [.draining { first, failure, resume := fun answer => .client (next answer) }]

def stepping (first : Option Delivery) (failure : Option InterpreterError) (event : String)
    (plan : Plan) (pending : List Invocation) (context : Context) (raised : List String) :
    Thread σ Listener := fun next =>
  [.stepping ⟨.signal none { first, failure, resume := fun answer => .client (next answer) },
    event, plan, pending, context, raised⟩]

def acting (first : Option Delivery) (failure : Option InterpreterError) (event : String)
    (plan : Plan) (pending : List Invocation) (context : Context) (raised : List String)
    (call : Invocation) (code : Routine σ Listener (Except String ActionEffect)) :
    Thread σ Listener := fun next =>
  [.acting ⟨.signal none { first, failure, resume := fun answer => .client (next answer) },
    event, plan, pending, context, raised⟩ call code]

def notifying (snapshot : Snapshot) (first : Option Delivery)
    (failure : Option InterpreterError) : Thread σ Listener := fun next =>
  [.notifying [] snapshot,
    .draining { first, failure, resume := fun answer => .client (next answer) }]

end Thread

/-- A machine that nobody listens to is at work on an event. -/
inductive Standing.Handles (s : Standing σ Listener) : Thread σ Listener → Prop
  | asking (event : String) (idle : s.Idle) : Handles s (.asking event)
  | draining (first : Option Delivery) (failure : Option InterpreterError) :
      Handles s (.draining first failure)
  | stepping (first : Option Delivery) (failure : Option InterpreterError) (event : String)
      (plan : Plan) (pending : List Invocation) (context : Context) (raised : List String) :
      Handles s (.stepping first failure event plan pending context raised)
  | acting (first : Option Delivery) (failure : Option InterpreterError) (event : String)
      (plan : Plan) (pending : List Invocation) (context : Context) (raised : List String)
      (call : Invocation) {code : Routine σ Listener (Except String ActionEffect)}
      (silent : code.Silent) :
      Handles s (.acting first failure event plan pending context raised call code)
  | notifying (snapshot : Snapshot) (first : Option Delivery)
      (failure : Option InterpreterError) : Handles s (.notifying snapshot first failure)

theorem Standing.Handles.ne_done {s : Standing σ Listener} {thread : Thread σ Listener}
    (handles : s.Handles thread) : thread (fun _ => .done ()) ≠ [.client (.done ())] := by
  cases handles <;>
    simp [Thread.asking, Thread.draining, Thread.stepping, Thread.acting, Thread.notifying]

namespace Program

variable {program : Program σ Listener} {now other : Timestamp} {s t : Standing σ Listener}
variable {thread : Thread σ Listener}

/-- Two machines at the same work make the same small step, at any readings of the clock: both
go on, or both answer, and the clock of the first stays as it is; or a deadline of the first is
beyond the range of its clock. -/
inductive Abreast (program : Program σ Listener) (now other : Timestamp)
    (s t : Standing σ Listener) (thread : Thread σ Listener) : Prop
  | goesOn {s' t' : Standing σ Listener} {later : Thread σ Listener}
      {chronicle chronicle' : Chronicle Listener} (twin : s'.Twin t')
      (sameNow : s'.1.now = s.1.now) (handles : s'.Handles later)
      (first : program.Onward now s thread chronicle fun next => s'.does (later next))
      (second : program.Onward other t thread chronicle' fun next => t'.does (later next))
  | returns {s' t' : Standing σ Listener} {answer : Except InterpreterError Delivery}
      {chronicle chronicle' : Chronicle Listener} (twin : s'.Twin t')
      (sameNow : s'.1.now = s.1.now) (idle : s'.Idle)
      (first : program.Onward now s thread chronicle fun next =>
        s'.does [.client (next answer)])
      (second : program.Onward other t thread chronicle' fun next =>
        t'.does [.client (next answer)])
  | overflows {chronicle : Chronicle Listener} {interpreter : Interpreter Listener}
      (beyond : program.definition.DelaysBeyond s.1.now)
      (first : program.Onward now s thread chronicle fun _ =>
        { interpreter, memory := s.2, overflowed := true })

/-- What the twin of a machine is. -/
theorem exists_of_twin (twin : s.Twin t) :
    ∃ timers subscriptions history,
      t = ({ s.1 with timers, subscriptions, history }, s.2) ∧
      history.undated = s.1.history.undated ∧ timers.now.nanos ≤ s.1.now.nanos :=
  ⟨t.1.timers, t.1.subscriptions, t.1.history, Prod.ext twin.interpreter twin.memory,
    twin.history, twin.notAhead⟩

/-- A machine that is not running rejects an event, and another begins a pass over its
queue. -/
theorem onward_asking (idle : s.Idle) (now : Timestamp) (event : String) :
    program.Onward now s (Thread.asking event) (s.1.requested program.definition (.send event))
      fun next =>
        if s.1.isRunning then
          Standing.does ({ s.1 with queue := [.event event], busy := true }, s.2)
            (Thread.draining none none next)
        else s.does [.client (next (.ok .rejected))] := by
  intro next
  refine ⟨?_, rfl⟩
  have steps : (s.does (Thread.asking event next)).step? program now =
      some ((s.does (Thread.asking event next)).deliver (.event event)
        (fun answer => .client (next answer)) []) := rfl
  rw [steps]
  cases running : s.1.isRunning with
  | true =>
      rw [deliver_of_idle idle running]
      rfl
  | false => simp [Execution.deliver, Standing.does, running]

/-- What goes on when an event is taken from the queue. -/
def taking (program : Program σ Listener) (i : Interpreter Listener) (event : String)
    (first : Option Delivery) (failure : Option InterpreterError) : Thread σ Listener :=
  if i.isRunning then
    match program.definition.select program.registry.guard? i.configuration i.context event with
    | [] => .draining (first.or (some .ignored)) failure
    | transitions =>
      let plan := program.definition.plan i.configuration transitions
      .stepping first failure event plan plan.invocations i.context []
  else .draining (first.or (some .rejected)) failure

theorem handles_taking (i : Interpreter Listener) (event : String) (first : Option Delivery)
    (failure : Option InterpreterError) :
    s.Handles (program.taking i event first failure) := by
  unfold taking
  split
  · split
    · exact .draining _ _
    · exact .stepping _ _ _ _ _ _ _
  · exact .draining _ _

theorem onward_draining_cons {event : String} {queue : List Signal}
    (isQueue : s.1.queue = .event event :: queue) (now : Timestamp) (first : Option Delivery)
    (failure : Option InterpreterError) :
    program.Onward now s (Thread.draining first failure) [.taken (.event event)] fun next =>
      Standing.does ({ s.1 with queue }, s.2) (program.taking s.1 event first failure next) := by
  obtain ⟨i, memory⟩ := s
  have isQueue : i.queue = .event event :: queue := isQueue
  have sameRunning : Interpreter.isRunning { i with queue } = i.isRunning := rfl
  intro next
  refine ⟨?_, by simp [Thread.draining, happenings, Standing.does, isQueue]⟩
  have drains : (Standing.does (i, memory) (Thread.draining first failure next)).step? program
      now = some _ := rfl
  simp only [Execution.drainNext, Thread.draining, Standing.does, isQueue, sameRunning] at drains
  refine drains.trans (congrArg some ?_)
  cases running : i.isRunning with
  | false => simp [taking, running, Standing.does, Thread.draining, Drain.note]
  | true =>
      cases selected : program.definition.select program.registry.guard? i.configuration
          i.context event with
      | nil =>
          simp [taking, running, selected, Standing.does, Thread.draining, Drain.note,
            Execution.stepOf?]
      | cons transition transitions =>
          simp [taking, running, selected, Standing.does, Thread.stepping, RunningStep.begin,
            Execution.stepOf?]

theorem onward_draining_nil (isQueue : s.1.queue = []) (noStop : s.1.pendingStop = none)
    (now : Timestamp) (first : Option Delivery) (failure : Option InterpreterError) :
    program.Onward now s (Thread.draining first failure) [] fun next =>
      Standing.does (s.1.release.1, s.2)
        [.client (next (Drain.result ⟨first, failure, fun _ => ()⟩))] := by
  intro next
  refine ⟨?_, by simp [Thread.draining, happenings, Standing.does, isQueue]⟩
  have steps : (s.does (Thread.draining first failure next)).step? program now =
      some ((s.does (Thread.draining first failure next)).drainNext program []
        { first, failure, resume := fun answer => .client (next answer) }) := rfl
  rw [steps]
  simp only [Execution.drainNext, Standing.does, isQueue, Interpreter.release, noStop,
    Execution.noticeWork, List.nil_append]
  rfl

section

variable (twin : s.Twin t)

include twin

theorem abreast_asking (idle : s.Idle) (event : String) :
    program.Abreast now other s t (.asking event) := by
  obtain ⟨timers, subscriptions, history, rfl, sameHistory, notAhead⟩ := exists_of_twin twin
  let t : Standing σ Listener := ({ s.1 with timers, subscriptions, history }, s.2)
  have idleToo : t.Idle := ⟨idle.busy, idle.queue, idle.pendingStop⟩
  have first : program.Onward now s _ _ _ := onward_asking idle now event
  have second : program.Onward other t _ _ _ := onward_asking idleToo other event
  cases running : s.1.isRunning with
  | false =>
      have halted : t.1.isRunning = false := running
      simp only [running, halted, Bool.false_eq_true, if_false] at first second
      exact .returns twin rfl idle first second
  | true =>
      have alsoRunning : t.1.isRunning = true := running
      simp only [running, alsoRunning, if_true] at first second
      have events : ∀ signal ∈ [Signal.event event], ∃ name, signal = .event name :=
        fun signal member => ⟨event, List.mem_singleton.1 member⟩
      have twin : Standing.Twin ({ s.1 with queue := [.event event], busy := true }, s.2)
          ({ t.1 with queue := [.event event], busy := true }, t.2) :=
        ⟨rfl, sameHistory, rfl, twin.alone, events, twin.noStop, notAhead⟩
      exact .goesOn twin rfl (.draining none none) first second

theorem abreast_draining (first : Option Delivery) (failure : Option InterpreterError) :
    program.Abreast now other s t (.draining first failure) := by
  obtain ⟨timers, subscriptions, history, rfl, sameHistory, notAhead⟩ := exists_of_twin twin
  let t : Standing σ Listener := ({ s.1 with timers, subscriptions, history }, s.2)
  cases isQueue : s.1.queue with
  | nil =>
      have alsoEmpty : t.1.queue = [] := isQueue
      have idle : Standing.Idle (s.1.release.1, s.2) := ⟨rfl, isQueue, rfl⟩
      have after : Standing.Twin (s.1.release.1, s.2) (t.1.release.1, t.2) :=
        ⟨rfl, sameHistory, rfl, twin.alone, twin.events, rfl, notAhead⟩
      exact .returns after rfl idle (onward_draining_nil isQueue twin.noStop now first failure)
        (onward_draining_nil alsoEmpty twin.noStop other first failure)
  | cons signal queue =>
      obtain ⟨event, rfl⟩ := twin.events signal (by simp [isQueue])
      have alsoWaits : t.1.queue = .event event :: queue := isQueue
      have events : ∀ signal ∈ queue, ∃ name, signal = .event name :=
        fun signal member => twin.events signal (by simp [isQueue, member])
      have after : Standing.Twin ({ s.1 with queue }, s.2) ({ t.1 with queue }, t.2) :=
        ⟨rfl, sameHistory, rfl, twin.alone, events, twin.noStop, notAhead⟩
      exact .goesOn after rfl (handles_taking s.1 event first failure)
        (onward_draining_cons isQueue now first failure)
        (onward_draining_cons alsoWaits other first failure)

/-- A step whose actions are done takes effect in both, or in neither. -/
theorem abreast_committing (first : Option Delivery) (failure : Option InterpreterError)
    (event : String) (plan : Plan) (context : Context) (raised : List String) :
    program.Abreast now other s t (.stepping first failure event plan [] context raised) := by
  obtain ⟨timers, subscriptions, history, rfl, sameHistory, notAhead⟩ := exists_of_twin twin
  let t : Standing σ Listener := ({ s.1 with timers, subscriptions, history }, s.2)
  have steps : ∀ now next, (s.does (Thread.stepping first failure event plan [] context raised
    next)).step? program now = some _ := fun _ _ => rfl
  have also : ∀ now next, (t.does (Thread.stepping first failure event plan [] context raised
    next)).step? program now = some _ := fun _ _ => rfl
  simp only [Execution.stepNext, Execution.finish, Standing.does, RunningStep.result,
    Origin.fired, Origin.isRecorded, Execution.drainAfter] at steps also
  have ends : ∀ now (u : Standing σ Listener) next, program.happenings now
      (u.does (Thread.stepping first failure event plan [] context raised next)) =
      u.1.ended program.definition now ⟨event, none, true, plan, context, raised⟩ :=
    fun _ _ _ => rfl
  cases isCommit : s.1.commit program.definition now
      ⟨event, none, true, plan, context, raised⟩ with
  | discarded =>
      have halted : s.1.lifecycle ≠ .running := Interpreter.halted_of_discarded isCommit
      have discarded : t.1.commit program.definition other
          ⟨event, none, true, plan, context, raised⟩ = .discarded := if_pos halted
      have steps := steps now
      have also := also other
      simp only [isCommit, discarded] at steps also
      exact .goesOn twin rfl (.draining (first.or (some .rejected)) failure)
        (fun next => ⟨steps next, ends now s next⟩) fun next => ⟨also next, ends other t next⟩
  | overflow after =>
      have steps := steps now
      simp only [isCommit] at steps
      exact .overflows (Interpreter.delaysBeyond_of_overflow isCommit)
        fun next => ⟨steps next, ends now s next⟩
  | published after =>
      obtain ⟨timers', history', alsoPublished, still, sameHistory⟩ :=
        Interpreter.commit_of_notAhead isCommit other timers subscriptions history notAhead
          sameHistory
      have published := Interpreter.published_of_commit isCommit
      have stillNotAhead : timers'.now.nanos ≤ after.now.nanos := by
        rw [still, published.now_eq]
        exact notAhead
      have alone : after.listeners = [] := published.listeners.trans twin.alone
      have alsoPublished : t.1.commit program.definition other
          ⟨event, none, true, plan, context, raised⟩ = .published _ := alsoPublished
      have steps := steps now
      have also := also other
      simp only [isCommit, alone] at steps
      simp only [alsoPublished] at also
      have twin : Standing.Twin (after, s.2)
          ({ after with timers := timers', subscriptions, history := history' }, s.2) :=
        ⟨rfl, sameHistory, rfl, alone, published.events twin.events,
          published.pendingStop.trans twin.noStop, stillNotAhead⟩
      refine .goesOn twin published.now_eq
        (.notifying after.snapshot (first.or (some .processed)) failure)
        (fun next => ⟨steps next, ends now s next⟩) fun next => ⟨?_, ends other t next⟩
      refine (also next).trans (congrArg some ?_)
      rw [alone]
      rfl

theorem abreast_stepping (silent : program.registry.Silent) (first : Option Delivery)
    (failure : Option InterpreterError) (event : String) (plan : Plan) (pending : List Invocation)
    (context : Context) (raised : List String) :
    program.Abreast now other s t
      (.stepping first failure event plan pending context raised) := by
  cases pending with
  | nil => exact abreast_committing twin first failure event plan context raised
  | cons call pending =>
      obtain ⟨timers, subscriptions, history, rfl, _, _⟩ := exists_of_twin twin
      let t : Standing σ Listener := ({ s.1 with timers, subscriptions, history }, s.2)
      have steps : ∀ now next, (s.does (Thread.stepping first failure event plan (call :: pending)
        context raised next)).step? program now = some _ := fun _ _ => rfl
      have also : ∀ now next, (t.does (Thread.stepping first failure event plan (call :: pending)
        context raised next)).step? program now = some _ := fun _ _ => rfl
      simp only [Execution.stepNext, Standing.does] at steps also
      cases isAction : program.registry.action? call.action with
      | none =>
          simp only [isAction] at steps also
          exact .goesOn twin rfl (.stepping first failure event plan pending context raised)
            (fun next => ⟨steps now next, rfl⟩) fun next => ⟨also other next, rfl⟩
      | some action =>
          simp only [isAction] at steps also
          have silent := silent _ _ isAction
            ⟨context, event, (program.definition.node call.state).id⟩
          exact .goesOn twin rfl
            (.acting first failure event plan pending context raised call silent)
            (fun next => ⟨steps now next, rfl⟩) fun next => ⟨also other next, rfl⟩

theorem abreast_acting (first : Option Delivery) (failure : Option InterpreterError)
    (event : String) (plan : Plan) (pending : List Invocation) (context : Context)
    (raised : List String) (call : Invocation)
    {code : Routine σ Listener (Except String ActionEffect)} (silent : code.Silent) :
    program.Abreast now other s t
      (.acting first failure event plan pending context raised call code) := by
  obtain ⟨timers, subscriptions, history, rfl, sameHistory, notAhead⟩ := exists_of_twin twin
  cases code with
  | done result =>
      cases result with
      | ok effect =>
          exact .goesOn twin rfl (.stepping first failure event plan pending effect.context
            (raised ++ effect.raised)) (fun _ => ⟨rfl, rfl⟩) fun _ => ⟨rfl, rfl⟩
      | error reason =>
          let error : InterpreterError := .actionFailed call.action
            (program.definition.node call.state).id event reason
          exact .goesOn twin rfl (.draining (first.or (some .rejected)) (failure.or (some error)))
            (fun _ => ⟨rfl, rfl⟩) fun _ => ⟨rfl, rfl⟩
  | read next =>
      exact .goesOn twin rfl (.acting first failure event plan pending context raised call
        (silent s.2)) (fun _ => ⟨rfl, rfl⟩) fun _ => ⟨rfl, rfl⟩
  | write memory next =>
      have silent : next.Silent := silent
      have twin : Standing.Twin (s.1, memory)
          ({ s.1 with timers, subscriptions, history }, memory) :=
        ⟨rfl, sameHistory, rfl, twin.alone, twin.events, twin.noStop, notAhead⟩
      exact .goesOn twin rfl (.acting first failure event plan pending context raised call silent)
        (fun _ => ⟨rfl, rfl⟩) fun _ => ⟨rfl, rfl⟩
  | ask request next => exact silent.elim

/-- Whatever two twins are at, they make the same small step. -/
theorem abreast (silent : program.registry.Silent) (handles : s.Handles thread)
    (now other : Timestamp) : program.Abreast now other s t thread := by
  cases handles with
  | asking event idle => exact abreast_asking twin idle event
  | draining first failure => exact abreast_draining twin first failure
  | stepping first failure event plan pending context raised =>
      exact abreast_stepping twin silent first failure event plan pending context raised
  | acting first failure event plan pending context raised call silent =>
      exact abreast_acting twin first failure event plan pending context raised call silent
  | notifying snapshot first failure =>
      exact .goesOn twin rfl (.draining first failure) (fun _ => ⟨rfl, rfl⟩) fun _ => ⟨rfl, rfl⟩

end

/-- Readings of the clock along which some work is over, with the answer that code goes on
with, and what happens meanwhile. -/
abbrev Yields (program : Program σ Listener) (readings : List Timestamp)
    (s : Standing σ Listener) (thread : Thread σ Listener)
    (answer : Except InterpreterError Delivery) (chronicle : Chronicle Listener)
    (u : Standing σ Listener) : Prop :=
  program.Brings readings s thread chronicle u fun next => [.client (next answer)]

variable {readings others : List Timestamp} {u v : Standing σ Listener}
variable {answer answer' : Except InterpreterError Delivery}
variable {chronicle later : Chronicle Listener}

/-- Two machines at the same work make as many small steps as there are readings: both go on
after them, or both have answered on the way, and the clock of the first is where it was; or a
deadline of the first was beyond the range of its clock. -/
inductive Lockstep (program : Program σ Listener) (readings others : List Timestamp)
    (s t : Standing σ Listener) (thread : Thread σ Listener) : Prop
  | goesOn {s' t' : Standing σ Listener} {later : Thread σ Listener}
      {chronicle chronicle' : Chronicle Listener} (twin : s'.Twin t')
      (sameNow : s'.1.now = s.1.now) (handles : s'.Handles later)
      (first : program.Brings readings s thread chronicle s' later)
      (second : program.Brings others t thread chronicle' t' later)
  | answers {s' t' : Standing σ Listener} {earlier rest earlier' rest' : List Timestamp}
      {answer : Except InterpreterError Delivery} {chronicle chronicle' : Chronicle Listener}
      (split : readings = earlier ++ rest) (split' : others = earlier' ++ rest')
      (sameRest : rest'.length = rest.length) (twin : s'.Twin t')
      (sameNow : s'.1.now = s.1.now) (idle : s'.Idle)
      (first : program.Yields earlier s thread answer chronicle s')
      (second : program.Yields earlier' t thread answer chronicle' t')
  | overflows {interpreter : Interpreter Listener} {memory : σ}
      (beyond : program.definition.DelaysBeyond s.1.now)
      (first : ∀ next, (s.does (thread next)).runAt program readings =
        { interpreter, memory, overflowed := true })

theorem lockstep (silent : program.registry.Silent) (twin : s.Twin t) (handles : s.Handles thread)
    (sameLength : others.length = readings.length) :
    program.Lockstep readings others s t thread := by
  induction readings generalizing s t thread others with
  | nil =>
      obtain rfl := List.length_eq_zero_iff.1 sameLength
      exact .goesOn twin rfl handles (fun _ => ⟨rfl, rfl⟩) fun _ => ⟨rfl, rfl⟩
  | cons now readings ih =>
      obtain ⟨other, others, rfl⟩ := List.exists_cons_of_length_eq_add_one sameLength
      have sameLength : others.length = readings.length := Nat.succ.inj sameLength
      cases abreast twin silent handles now other with
      | goesOn twin still handles makes alsoMakes =>
          cases ih twin handles sameLength with
          | goesOn twin sameNow handles first second =>
              exact .goesOn twin (sameNow.trans still) handles (makes.brings.append first)
                (alsoMakes.brings.append second)
          | answers split split' sameRest twin sameNow idle first second =>
              exact .answers (congrArg (now :: ·) split) (congrArg (other :: ·) split')
                sameRest twin (sameNow.trans still) idle (makes.brings.append first)
                (alsoMakes.brings.append second)
          | overflows beyond first =>
              exact .overflows (still ▸ beyond) fun next =>
                (Execution.runAt_cons (makes next).1).trans (first next)
      | returns twin sameNow idle makes alsoMakes =>
          exact .answers rfl rfl sameLength twin sameNow idle makes.brings alsoMakes.brings
      | @overflows _ interpreter beyond makes =>
          have ends : ∀ next, (s.does (thread next)).runAt program (now :: readings) =
              { interpreter, memory := s.2, overflowed := true } := by
            intro next
            rw [Execution.runAt_cons (makes next).1, Execution.runAt_of_no_work rfl]
          exact .overflows beyond ends

theorem overflowed_runAt_done (program : Program σ Listener) (s : Standing σ Listener)
    (readings : List Timestamp) :
    ((s.does [.client (.done ())]).runAt program readings).overflowed = false := by
  cases readings with
  | nil => rfl
  | cons now readings =>
      have steps : (s.does [.client (.done ())]).step? program now = some (s.does []) := rfl
      rw [Execution.runAt_cons steps, Execution.runAt_of_no_work rfl]
      rfl

section

variable (silent : program.registry.Silent) (twin : s.Twin t) (handles : s.Handles thread)

include silent twin handles

/-- What a machine answers its twin answers. -/
theorem Yields.exists_second (yields : program.Yields readings s thread answer chronicle u)
    (sameLength : others.length = readings.length) :
    ∃ chronicle' v, program.Yields others t thread answer chronicle' v ∧ u.Twin v ∧ u.Idle ∧
      u.1.now = s.1.now := by
  cases lockstep silent twin handles sameLength with
  | goesOn _ _ handles first _ =>
      have ends := (yields fun _ => .done ()).1
      rw [(first _).1] at ends
      exact absurd (Standing.does_inj ends).2 handles.ne_done
  | answers split split' sameRest twin sameNow idle first second =>
      subst split split'
      obtain ⟨rfl, rfl, rfl, rfl⟩ := first.eq_of_append yields
      obtain rfl := List.length_eq_zero_iff.1 sameRest
      rw [List.append_nil]
      exact ⟨_, _, second, twin, idle, sameNow⟩
  | overflows _ first =>
      have ends := (yields fun _ => .done ()).1
      rw [first] at ends
      cases congrArg (·.overflowed) ends

/-- What the twin of a machine answers the machine answers, unless a deadline is beyond the
range of its clock. -/
theorem Yields.exists_first (yields : program.Yields others t thread answer chronicle v)
    (sameLength : others.length = readings.length) :
    (∃ chronicle' u, program.Yields readings s thread answer chronicle' u ∧ u.Twin v ∧ u.Idle) ∨
      ∃ interpreter memory, ∀ next, (s.does (thread next)).runAt program readings =
        { interpreter, memory, overflowed := true } := by
  cases lockstep silent twin handles sameLength with
  | goesOn twin _ handles _ second =>
      have ends := (yields fun _ => .done ()).1
      rw [(second _).1] at ends
      exact absurd (Standing.does_inj ends).2 handles.ne_done
  | answers split split' sameRest twin _ idle first second =>
      subst split split'
      obtain ⟨rfl, rfl, rfl, rfl⟩ := second.eq_of_append yields
      obtain rfl := List.length_eq_zero_iff.1 sameRest.symm
      rw [List.append_nil]
      exact .inl ⟨_, _, first, twin, idle⟩
  | overflows _ first => exact .inr ⟨_, _, first⟩

/-- A machine and its twin answer the same. -/
theorem Yields.agree (yields : program.Yields readings s thread answer chronicle u)
    (also : program.Yields others t thread answer' later v) :
    answer' = answer ∧ u.Twin v ∧ u.Idle := by
  rcases Nat.le_total readings.length others.length with le | ge
  · have sameLength : (others.take readings.length).length = readings.length :=
      List.length_take_of_le le
    obtain ⟨_, w, yieldsToo, twin, idle, _⟩ :=
      yields.exists_second silent twin handles sameLength
    rw [← List.take_append_drop readings.length others] at also
    obtain ⟨_, rfl, _, rfl⟩ := yieldsToo.eq_of_append also
    exact ⟨rfl, twin, idle⟩
  · have sameLength : (readings.take others.length).length = others.length :=
      List.length_take_of_le ge
    rw [← List.take_append_drop others.length readings] at yields
    rcases also.exists_first silent twin handles sameLength.symm with
      ⟨_, w, yieldsToo, twin, idle⟩ | ⟨interpreter, memory, overflowed⟩
    · obtain ⟨_, rfl, _, rfl⟩ := yieldsToo.eq_of_append yields
      exact ⟨rfl, twin, idle⟩
    · have ends := (yields fun _ => .done ()).1
      rw [Execution.runAt_append, overflowed, Execution.runAt_of_no_work rfl] at ends
      cases congrArg (·.overflowed) ends

/-- Where a machine answers, no run of its twin leaves the range of the clock. -/
theorem Yields.inRange (yields : program.Yields readings s thread answer chronicle u)
    (others : List Timestamp) {interpreter : Interpreter Listener} {memory : σ} :
    (t.does (thread fun _ => .done ())).runAt program others ≠
      { interpreter, memory, overflowed := true } := by
  intro overflows
  rcases Nat.le_total readings.length others.length with le | ge
  · have sameLength : (others.take readings.length).length = readings.length :=
      List.length_take_of_le le
    obtain ⟨_, v, yieldsToo, _⟩ := yields.exists_second silent twin handles sameLength
    rw [← List.take_append_drop readings.length others, Execution.runAt_append,
      (yieldsToo _).1] at overflows
    have inRange := overflowed_runAt_done program v (others.drop readings.length)
    rw [overflows] at inRange
    cases inRange
  · have sameLength : (others ++ readings.drop others.length).length = readings.length := by
      simp [ge]
    obtain ⟨_, v, yieldsToo, _⟩ := yields.exists_second silent twin handles sameLength
    have ends := (yieldsToo fun _ => .done ()).1
    rw [Execution.runAt_append, overflows, Execution.runAt_of_no_work rfl] at ends
    cases congrArg (·.overflowed) ends

/-- A run leaves the range of the clock only if some timer would be due beyond it from where the
clock stood. -/
theorem delaysBeyond_of_overflows {interpreter : Interpreter Listener} {memory : σ}
    (overflows : (s.does (thread fun _ => .done ())).runAt program readings =
      { interpreter, memory, overflowed := true }) : program.definition.DelaysBeyond s.1.now := by
  cases lockstep silent twin handles (rfl : readings.length = readings.length) with
  | goesOn _ _ _ first _ =>
      rw [(first _).1] at overflows
      cases congrArg (·.overflowed) overflows
  | @answers s' _ _ rest _ _ _ _ _ split _ _ _ _ _ first _ =>
      rw [split, Execution.runAt_append, (first _).1] at overflows
      have inRange := overflowed_runAt_done program s' rest
      rw [overflows] at inRange
      cases inRange
  | overflows beyond _ => exact beyond

end

/-- A machine is sent some events in turn, and gives its answers. -/
inductive Sends (program : Program σ Listener) :
    Standing σ Listener → List String → List (Except InterpreterError Delivery) →
      Standing σ Listener → Prop
  | nil (s : Standing σ Listener) : Sends program s [] [] s
  | cons {s t u : Standing σ Listener} {readings : List Timestamp} {event : String}
      {events : List String} {answer : Except InterpreterError Delivery}
      {answers : List (Except InterpreterError Delivery)} {chronicle : Chronicle Listener}
      (isAnswer : program.Answers readings s (.send event) answer chronicle t)
      (onward : Sends program t events answers u) :
      Sends program s (event :: events) (answer :: answers) u

/-- While a machine is sent some events in turn a deadline is beyond the range of its clock. -/
inductive Overflows (program : Program σ Listener) : Standing σ Listener → List String → Prop
  | now {s : Standing σ Listener} {readings : List Timestamp} {event : String}
      (events : List String) {interpreter : Interpreter Listener} {memory : σ}
      (ends : ∀ next, (s.does [.client (.ask (.send event) next)]).runAt program readings =
        { interpreter, memory, overflowed := true }) : Overflows program s (event :: events)
  | later {s t : Standing σ Listener} {readings : List Timestamp} {event : String}
      {events : List String} {answer : Except InterpreterError Delivery}
      {chronicle : Chronicle Listener}
      (isAnswer : program.Answers readings s (.send event) answer chronicle t)
      (onward : Overflows program t events) : Overflows program s (event :: events)

section

variable {events : List String} {answers answers' : List (Except InterpreterError Delivery)}
variable (silent : program.registry.Silent)

include silent

theorem Sends.exists_second (sends : program.Sends s events answers u) (twin : s.Twin t)
    (idle : s.Idle) : ∃ v, program.Sends t events answers v := by
  induction sends generalizing t with
  | nil s => exact ⟨t, .nil t⟩
  | cons isAnswer onward ih =>
      obtain ⟨_, v, alsoAnswer, twin, idle, _⟩ :=
        Yields.exists_second silent twin (.asking _ idle) isAnswer rfl
      obtain ⟨w, sends⟩ := ih twin idle
      exact ⟨w, .cons alsoAnswer sends⟩

theorem Sends.exists_first (sends : program.Sends t events answers v) (twin : s.Twin t)
    (idle : s.Idle) : (∃ u, program.Sends s events answers u) ∨ program.Overflows s events := by
  induction sends generalizing s with
  | nil t => exact .inl ⟨s, .nil s⟩
  | cons isAnswer onward ih =>
      rcases Yields.exists_first silent twin (.asking _ idle) isAnswer rfl with
        ⟨_, u, alsoAnswer, twin, idle⟩ | ⟨interpreter, memory, ends⟩
      · rcases ih twin idle with ⟨w, sends⟩ | overflows
        · exact .inl ⟨w, .cons alsoAnswer sends⟩
        · exact .inr (.later alsoAnswer overflows)
      · exact .inr (.now _ ends)

theorem Sends.agree (sends : program.Sends s events answers u)
    (also : program.Sends t events answers' v) (twin : s.Twin t) (idle : s.Idle) :
    answers' = answers ∧ u.Twin v := by
  induction sends generalizing t answers' with
  | nil s =>
      cases also
      exact ⟨rfl, twin⟩
  | cons isAnswer onward ih =>
      cases also with
      | cons alsoAnswer alsoOnward =>
          obtain ⟨rfl, twin, idle⟩ :=
            Yields.agree silent twin (.asking _ idle) isAnswer alsoAnswer
          obtain ⟨rfl, twin⟩ := ih alsoOnward twin idle
          exact ⟨rfl, twin⟩

/-- A machine that answers all events does not leave the range of its clock, nor does its twin. -/
theorem Sends.inRange (sends : program.Sends s events answers u) (twin : s.Twin t)
    (idle : s.Idle) : ¬ program.Overflows t events := by
  induction sends generalizing t with
  | nil s => rintro ⟨⟩
  | cons isAnswer onward ih =>
      intro overflows
      cases overflows with
      | now _ ends => exact Yields.inRange silent twin (.asking _ idle) isAnswer _ (ends _)
      | later alsoAnswer later =>
          obtain ⟨_, twin, idle⟩ := Yields.agree silent twin (.asking _ idle) isAnswer alsoAnswer
          exact ih twin idle later

theorem Overflows.delaysBeyond (overflows : program.Overflows s events) (idle : s.Idle)
    (alone : s.1.listeners = []) : program.definition.DelaysBeyond s.1.now := by
  induction overflows with
  | now _ ends =>
      exact delaysBeyond_of_overflows silent (.refl idle alone) (.asking _ idle) (ends _)
  | later isAnswer _ ih =>
      obtain ⟨_, _, _, twin, idle, sameNow⟩ :=
        Yields.exists_second silent (.refl idle alone) (.asking _ idle) isAnswer rfl
      exact sameNow ▸ ih idle twin.alone

end

/-- Whether an event would take a transition now. -/
def can (program : Program σ Listener) (i : Interpreter Listener) (event : String) : Bool :=
  i.isRunning &&
    !(program.definition.select program.registry.guard? i.configuration i.context event).isEmpty

theorem meet_can (execution : Execution σ Listener) (rest : List (Work σ Listener))
    (event : String) (resume : Bool → Work σ Listener) :
    execution.meet program rest (.can event) resume =
      { execution with work := resume (program.can execution.interpreter event) :: rest } := rfl

/-- Two interpreters show the same, but for the dates in their histories. -/
structure LooksLike (program : Program σ Listener) (i j : Interpreter Listener) : Prop where
  snapshot : j.snapshot = i.snapshot
  configuration : j.configuration = i.configuration
  can : ∀ event, program.can j event = program.can i event
  history : j.history.records.map StepRecord.undated = i.history.records.map StepRecord.undated

theorem looksLike_of_twin (twin : s.Twin t) : program.LooksLike s.1 t.1 := by
  have sameHistory := congrArg (·.records) twin.history
  rw [twin.interpreter]
  exact ⟨rfl, rfl, fun _ => rfl, sameHistory⟩

/-- A restored interpreter is a twin of the one that was saved. -/
theorem twin_assemble {i : Interpreter Listener} {limit : Option UInt64}
    {phase : Phase σ Listener} (restorable : program.Restorable limit phase i) (memory : σ)
    (idle : Standing.Idle (i, memory)) (alone : i.listeners = []) :
    Standing.Twin (i, memory) (.assemble program.definition i.lifecycle i.configuration i.context
      i.history, memory) := by
  have sameSnapshot : (⟨Configuration.value program.definition.toStateTree i.configuration,
      i.context, i.lifecycle.status⟩ : Snapshot) = i.snapshot := by
    rw [← restorable.shown.value, ← restorable.shown.context, ← restorable.status]
  refine ⟨?_, rfl, rfl, alone, ?_, idle.pendingStop, ?_⟩
  · obtain ⟨isIdle, noQueue, noStop⟩ := idle
    cases i
    simp only at isIdle noQueue noStop alone sameSnapshot
    simp only [Interpreter.assemble, sameSnapshot, isIdle, noQueue, noStop, alone]
  · intro signal waits
    rw [idle.queue] at waits
    cases waits
  · have atZero : (Interpreter.assemble program.definition i.lifecycle i.configuration i.context
        i.history : Interpreter Listener).timers.now = .zero := by
      simp only [Interpreter.assemble]
      split
      · exact Timers.now_armAll
      · rfl
    show (Interpreter.assemble _ _ _ _ _ : Interpreter Listener).timers.now.nanos ≤ _
    rw [atZero]
    exact Nat.zero_le _

/-- A machine that is restored from its checkpoint goes on as the one that was saved: it gives
the same answers to whatever events it is sent, and shows the same after each. It has answers
where the one that was saved has them. It has others, which that one has not, where a deadline
leaves the range of the clock of that one, which the restored one does not take over; this cannot
be as long as no delay reaches beyond the range. -/
theorem restored_goes_on {machine : MachineSpec} (distinct : machine.root.Distinct)
    (built : machine.build = .ok program.definition) {limit : Option UInt64}
    {start : Interpreter Listener} (begins : program.BeginsWith limit start) {memory : σ}
    {code : Routine σ Listener Unit} {execution : Execution σ Listener}
    (run : program.RunsTo (.ofClient start memory code) chronicle execution)
    (inRange : execution.overflowed = false) (isIdle : execution.interpreter.busy = false)
    (started : execution.interpreter.lifecycle ≠ .notStarted)
    (legal : Configuration.isLegal program.definition.toStateTree
      execution.interpreter.configuration = true)
    (silent : program.registry.Silent) (alone : execution.interpreter.listeners = [])
    (id : Uuid) (timestamp : Timestamp) :
    ∃ restored,
      program.restore limit (execution.interpreter.checkpoint program.definition id timestamp) =
        .ok restored ∧
      ∀ events,
        ((∃ answers s, program.Sends execution.standing events answers s) →
          ∃ answers t, program.Sends (restored, execution.memory) events answers t) ∧
        ((∃ answers t, program.Sends (restored, execution.memory) events answers t) →
          (∃ answers s, program.Sends execution.standing events answers s) ∨
            program.Overflows execution.standing events) ∧
        (∀ answers answers' s t, program.Sends execution.standing events answers s →
          program.Sends (restored, execution.memory) events answers' t →
          answers' = answers ∧ program.LooksLike s.1 t.1) ∧
        (program.Overflows execution.standing events →
          (¬ ∃ answers s, program.Sends execution.standing events answers s) ∧
          program.definition.DelaysBeyond execution.interpreter.now) := by
  have wellFormed := MachineSpec.wellFormed_of_build built
  have discrete : program.definition.Discrete := by
    obtain ⟨_, isResolved⟩ := MachineSpec.build_eq_ok_iff.1 built
    rw [← isResolved]
    exact StateTree.discrete_ofMachine distinct
  have described := Configuration.ofValue_value_of_legal wellFormed.linked discrete
    ((Configuration.isLegal_iff wellFormed.linked).1 legal)
  obtain ⟨phase, situated, restorable⟩ := run.induct
    (fun phase i _ => program.Restorable limit phase i) inRange (situated_ofClient begins.begins)
    begins.restorable fun _ move => move.restorable
  have settled : execution.interpreter.lifecycle = .running → phase.isStarting = false := by
    intro running
    rw [situated.fits.eq_outside isIdle (by simp [running])]
    rfl
  have tidy := situated.settled.tidy.idle isIdle
  have idle : execution.standing.Idle := ⟨isIdle, tidy.1, tidy.2⟩
  have twin := twin_assemble restorable execution.memory idle alone
  refine ⟨_, restore_checkpoint restorable settled begins.valid described started id timestamp,
    fun events => ⟨?_, ?_, ?_, fun overflows => ⟨?_, ?_⟩⟩⟩
  · rintro ⟨answers, s, sends⟩
    obtain ⟨t, also⟩ := sends.exists_second silent twin idle
    exact ⟨answers, t, also⟩
  · rintro ⟨answers, t, sends⟩
    exact (sends.exists_first silent twin idle).imp_left fun ⟨s, also⟩ => ⟨answers, s, also⟩
  · intro answers answers' s t sends also
    obtain ⟨sameAnswers, twin⟩ := sends.agree silent also twin idle
    exact ⟨sameAnswers, looksLike_of_twin twin⟩
  · rintro ⟨answers, s, sends⟩
    exact sends.inRange silent (.refl idle alone) idle overflows
  · exact overflows.delaysBeyond silent idle alone

/-- Someone starts the hall, moves and waits for a moment. -/
def arriving : Execution Unit Unit :=
  .ofClient (.fresh MachineSpec.hall.resolved (some 2)) () do
    let _ ← Routine.request .start
    let _ ← Routine.request (.send "motion")
    let _ ← Routine.request (.advance (.ofMillis 10))

/-- The hall with its light on. -/
def arrived : Execution Unit Unit := arriving.run quietHall default 20

/-- The work on a first and on a second ring at the door. -/
def opening : Execution Unit Unit :=
  arrived.standing.does [.client (.ask (.send "open") fun _ => .done ())]

def opened : Standing Unit Unit := (opening.runAt quietHall (List.replicate 8 default)).standing

def reopening : Execution Unit Unit :=
  opened.does [.client (.ask (.send "open") fun _ => .done ())]

def reopened : Standing Unit Unit :=
  (reopening.runAt quietHall (List.replicate 3 default)).standing

/-- The restored hall opens its door once, as the one that was saved does. -/
theorem quiet_hall_goes_on :
    ∃ restored t,
      quietHall.restore (some 2)
        (arrived.interpreter.checkpoint quietHall.definition default default) = .ok restored ∧
      quietHall.Sends (restored, arrived.memory) ["open", "open"]
        [.ok .processed, .ok .ignored] t ∧
      quietHall.LooksLike reopened.1 t.1 := by
  have opens : quietHall.Answers (List.replicate 8 default) arrived.standing (.send "open")
      (.ok .processed) (quietHall.chronicleAt (List.replicate 8 default) opening) opened := by
    intro next
    constructor
    · cbv
    · cbv
  have ignores : quietHall.Answers (List.replicate 3 default) opened (.send "open")
      (.ok .ignored) (quietHall.chronicleAt (List.replicate 3 default) reopening) reopened := by
    intro next
    constructor
    · cbv
    · cbv
  have sends : quietHall.Sends arrived.standing ["open", "open"] _ reopened :=
    .cons opens (.cons ignores (.nil _))
  have isNew : quietHall.BeginsWith (some 2) (.fresh MachineSpec.hall.resolved (some 2)) :=
    .inl (by cbv)
  have run : quietHall.RunsTo arriving _ arrived := runsTo_run default 20 arriving
  have facts : (arrived.overflowed, arrived.interpreter.busy, arrived.interpreter.lifecycle,
      arrived.interpreter.listeners, Configuration.isLegal quietHall.definition.toStateTree
        arrived.interpreter.configuration) = (false, false, .running, [], true) := by cbv
  simp only [Prod.mk.injEq] at facts
  obtain ⟨inRange, isIdle, running, alone, legal⟩ := facts
  obtain ⟨restored, isRestored, goesOn⟩ := restored_goes_on (by decide +kernel)
    MachineSpec.hall_built isNew run inRange isIdle (by simp [running]) legal
    discreet_quietHall.actions alone default default
  obtain ⟨follows, _, agree, _⟩ := goesOn ["open", "open"]
  obtain ⟨answers, t, alsoSends⟩ := follows ⟨_, _, sends⟩
  obtain ⟨rfl, looksLike⟩ := agree _ _ _ _ sends alsoSends
  exact ⟨restored, t, isRestored, alsoSends, looksLike⟩

/-- Someone starts the hall and stays until its clock comes to the end of its range. -/
def staying : Execution Unit Unit :=
  .ofClient (.fresh MachineSpec.hall.resolved (some 2)) () do
    let _ ← Routine.request .start
    let _ ← Routine.request (.advance
      ⟨18_446_744_073_709_551_615 * 1_000_000_000 + 999_999_999, by decide⟩)

def stayed : Execution Unit Unit := staying.run quietHall default 20

/-- The work on a ring at the door of the hall that was saved then. -/
def openingLate : Execution Unit Unit :=
  stayed.standing.does [.client (.ask (.send "open") fun _ => .done ())]

/-- The hall that goes on from the checkpoint. -/
def renewed : Interpreter Unit :=
  .assemble MachineSpec.hall.resolved .running stayed.interpreter.configuration
    stayed.interpreter.context stayed.interpreter.history

def openingAnew : Execution Unit Unit :=
  Standing.does (renewed, ()) [.client (.ask (.send "open") fun _ => .done ())]

/-- The hall whose clock has come to its end has no answer to a ring at its door: the door would
have to fall shut later than that. The hall that is restored from it, whose clock is at its
beginning, opens its door. -/
theorem stayed_hall_does_not_go_on :
    quietHall.BeginsWith (some 2) (.fresh MachineSpec.hall.resolved (some 2)) ∧
      quietHall.registry.Silent ∧
      (stayed.overflowed, stayed.interpreter.busy, stayed.interpreter.lifecycle,
        stayed.interpreter.listeners, Configuration.isLegal MachineSpec.hall.resolved.toStateTree
          stayed.interpreter.configuration) = (false, false, .running, [], true) ∧
      ∃ restored t,
        quietHall.restore (some 2)
          (stayed.interpreter.checkpoint quietHall.definition default default) = .ok restored ∧
        quietHall.Sends (restored, stayed.memory) ["open"] [.ok .processed] t ∧
        ¬ ∃ answers s, quietHall.Sends stayed.standing ["open"] answers s := by
  have opens : quietHall.Answers (List.replicate 10 default) (renewed, ()) (.send "open")
      (.ok .processed) (quietHall.chronicleAt (List.replicate 10 default) openingAnew)
      (openingAnew.runAt quietHall (List.replicate 10 default)).standing := by
    intro next
    constructor
    · cbv
    · cbv
  have overflows : quietHall.Overflows stayed.standing ["open"] := by
    have ends : ∀ next,
        (stayed.standing.does [.client (.ask (.send "open") next)]).runAt quietHall
          (List.replicate 5 default) =
        { interpreter := (openingLate.runAt quietHall (List.replicate 5 default)).interpreter
          memory := (), overflowed := true } := by
      intro next
      cbv
    exact .now [] ends
  have facts : (stayed.overflowed, stayed.interpreter.busy, stayed.interpreter.lifecycle,
      stayed.interpreter.listeners, Configuration.isLegal MachineSpec.hall.resolved.toStateTree
        stayed.interpreter.configuration) = (false, false, .running, [], true) := by cbv
  refine ⟨.inl (by cbv), discreet_quietHall.actions, facts, renewed, _, by cbv,
    .cons opens (.nil _), ?_⟩
  rintro ⟨answers, s, sends⟩
  have idle : stayed.standing.Idle := ⟨by cbv, by cbv, by cbv⟩
  exact sends.inRange discreet_quietHall.actions (.refl idle (by cbv)) idle overflows

end Program

end Statechart
