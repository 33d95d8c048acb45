import Statechart.Proofs.Armed
import Statechart.Proofs.Failure
import Statechart.Proofs.Phases
import Statechart.Proofs.Readings

/-!
# Passes over the queue

Where no action and no listener makes a request, a pass over the queue runs on its own: it
does not depend on what goes on with its result, and cannot be told from outside until it is
over. So what a request of the driving code comes to can be said without that code.
-/

namespace Statechart

variable {σ Listener : Type}

/-- Actions and listeners make no requests. -/
structure Program.Discreet (program : Program σ Listener) : Prop where
  actions : ∀ name action, program.registry.action? name = some action →
    ∀ call, (action call).Silent
  listeners : ∀ listener snapshot, (program.listen listener snapshot).Silent

/-- An interpreter and the shared memory, between two requests. -/
abbrev Standing (σ Listener : Type) := Interpreter Listener × σ

/-- An execution as it stands between two requests. -/
def Execution.standing (execution : Execution σ Listener) : Standing σ Listener :=
  (execution.interpreter, execution.memory)

/-- The work of a pass over the queue, for what is to go on with the result. -/
abbrev Strand (σ Listener : Type) :=
  (Except InterpreterError Delivery → Work σ Listener) → List (Work σ Listener)

namespace Standing

def does (standing : Standing σ Listener) (work : List (Work σ Listener)) :
    Execution σ Listener :=
  { interpreter := standing.1, memory := standing.2, work }

/-- Nothing is in progress, and nothing is put off. -/
structure Idle (standing : Standing σ Listener) : Prop where
  busy : standing.1.busy = false
  queue : standing.1.queue = []
  pendingStop : standing.1.pendingStop = none

end Standing

/-- The pass over the queue, or what it waits for, with the timer that has triggered the step in
progress and the first failure so far; all code in it is silent. -/
inductive Strand.Passing :
    Option (TimerKey × Nat) → Option InterpreterError → Strand σ Listener → Prop
  | draining (first : Option Delivery) (failure : Option InterpreterError) :
      Passing none failure fun resume => [.draining { first, failure, resume }]
  | stepping (fired : Option (TimerKey × Nat)) (first : Option Delivery)
      (failure : Option InterpreterError) (event : String) (plan : Plan)
      (pending : List Invocation) (context : Context) (raised : List String) :
      Passing fired failure fun resume =>
        [.stepping ⟨.signal fired { first, failure, resume }, event, plan, pending, context,
          raised⟩]
  | acting (fired : Option (TimerKey × Nat)) (first : Option Delivery)
      (failure : Option InterpreterError) (event : String) (plan : Plan)
      (pending : List Invocation) (context : Context) (raised : List String)
      (call : Invocation) {code : Routine σ Listener (Except String ActionEffect)}
      (silent : code.Silent) :
      Passing fired failure fun resume =>
        [.acting ⟨.signal fired { first, failure, resume }, event, plan, pending, context,
          raised⟩ call code]
  | notifying (subscribers : List (Nat × Listener)) (snapshot : Snapshot)
      (first : Option Delivery) (failure : Option InterpreterError) :
      Passing none failure fun resume =>
        [.notifying subscribers snapshot, .draining { first, failure, resume }]
  | listening {code : Routine σ Listener Unit} (silent : code.Silent)
      (subscribers : List (Nat × Listener)) (snapshot : Snapshot)
      (first : Option Delivery) (failure : Option InterpreterError) :
      Passing none failure fun resume =>
        [.listening code, .notifying subscribers snapshot,
          .draining { first, failure, resume }]

theorem Strand.Passing.ne_client {strand : Strand σ Listener} {fired : Option (TimerKey × Nat)}
    {failure : Option InterpreterError} (passing : strand.Passing fired failure)
    (resume : Except InterpreterError Delivery → Work σ Listener)
    (code : Routine σ Listener Unit) : strand resume ≠ [.client code] := by
  cases passing <;> simp

theorem Timers.now_armAll {timers : Timers} {entries : List (TimerKey × Duration)} :
    (timers.armAll entries).1.now = timers.now := by
  induction entries generalizing timers with
  | nil => rfl
  | cons entry rest ih =>
      obtain ⟨key, delay⟩ := entry
      unfold armAll
      split
      · next armed isArmed =>
        simp only [arm?, Option.bind_eq_bind, Option.bind_eq_some_iff] at isArmed
        obtain ⟨_, _, isArmed⟩ := isArmed
        obtain rfl := Option.some.inj isArmed
        exact ih
      · rfl

namespace Interpreter

variable {definition : Definition} {before after : Interpreter Listener}
variable {now : Timestamp} {step : StepResult}

theorem now_timersAfter (interpreter : Interpreter Listener) (definition : Definition)
    (step : StepResult) :
    (interpreter.timersAfter definition step).1.now = interpreter.timers.now := by
  rw [timersAfter_eq, Timers.now_armAll, (Timers.disarmAll_eq _).1, (Timers.without_eq _ _).1]

/-- A step that is committed leaves the clock as it is. -/
theorem Published.now_eq (published : Published definition now step before after) :
    after.now = before.now := by
  have kept := before.now_timersAfter definition step
  obtain ⟨timers, isTimers, ⟨_, sameTimers, _⟩ | ⟨_, sameTimers, _⟩⟩ := published.outcome
  · simpa [Interpreter.now, sameTimers, isTimers, Timers.clear] using kept
  · simpa [Interpreter.now, sameTimers, isTimers] using kept

end Interpreter

namespace Program

variable {program : Program σ Listener} {now : Timestamp} {s : Standing σ Listener}
variable {strand : Strand σ Listener} {fired next : Option (TimerKey × Nat)}
variable {failure noted : Option InterpreterError} {i j : Interpreter Listener}
variable {chronicle : Chronicle Listener}

/-- Whether a signal has a step, and which, does not depend on the pass that takes it. -/
theorem stepOf?_cases (program : Program σ Listener) (interpreter : Interpreter Listener)
    (signal : Signal) :
    (∀ drain, Execution.stepOf? program interpreter drain signal = none) ∨
      ∃ event plan, ∀ drain, Execution.stepOf? program interpreter drain signal =
        some (.begin (.signal signal.fired drain) event plan interpreter.context) := by
  cases signal with
  | event name =>
      cases selected : program.definition.select program.registry.guard?
          interpreter.configuration interpreter.context name with
      | nil => exact .inl fun drain => by simp [Execution.stepOf?, selected]
      | cons transition transitions =>
          exact .inr ⟨name, _, fun drain => by simp [Execution.stepOf?, selected]; rfl⟩
  | timer key generation =>
      cases current : interpreter.timers.isCurrent key generation with
      | false => exact .inl fun drain => by simp [Execution.stepOf?, current]
      | true =>
          cases isDelayed : program.definition.delayed? key with
          | none => exact .inl fun drain => by simp [Execution.stepOf?, current, isDelayed]
          | some delayed =>
              exact .inr ⟨_, _, fun drain => by
                simp [Execution.stepOf?, current, isDelayed]; rfl⟩

/-- A small step of some work, whatever is to go on after it. -/
def Onward {ι : Type} (program : Program σ Listener) (now : Timestamp) (s : Standing σ Listener)
    (work : ι → List (Work σ Listener)) (chronicle : Chronicle Listener)
    (next : ι → Execution σ Listener) : Prop :=
  ∀ i, (s.does (work i)).step? program now = some (next i) ∧
    program.happenings now (s.does (work i)) = chronicle

/-- Readings of the clock along which some work leads to other work, whatever is to go on
after it, and what happens meanwhile. -/
def Brings {ι : Type} (program : Program σ Listener) (readings : List Timestamp)
    (before : Standing σ Listener) (work : ι → List (Work σ Listener))
    (chronicle : Chronicle Listener) (after : Standing σ Listener)
    (later : ι → List (Work σ Listener)) : Prop :=
  ∀ i, (before.does (work i)).runAt program readings = after.does (later i) ∧
    program.chronicleAt readings (before.does (work i)) = chronicle

section

variable {ι : Type} {work next last : ι → List (Work σ Listener)} {t u : Standing σ Listener}
variable {later : Chronicle Listener} {earlier readings : List Timestamp}

theorem Onward.brings
    (onward : program.Onward now s work chronicle fun i => t.does (next i)) :
    program.Brings [now] s work chronicle t next := by
  intro i
  obtain ⟨steps, happens⟩ := onward i
  rw [Execution.runAt_cons steps, Execution.chronicleAt_cons steps, happens]
  exact ⟨rfl, List.append_nil _⟩

theorem Brings.append (brings : program.Brings earlier s work chronicle t next)
    (onward : program.Brings readings t next later u last) :
    program.Brings (earlier ++ readings) s work (chronicle ++ later) u last := by
  intro i
  obtain ⟨ends, happens⟩ := brings i
  obtain ⟨endsLater, happensLater⟩ := onward i
  rw [Execution.runAt_append, Execution.chronicleAt_append, ends, happens, endsLater, happensLater]
  exact ⟨rfl, rfl⟩

theorem Brings.runsTo (brings : program.Brings readings s work chronicle u last) (i : ι) :
    program.RunsTo (s.does (work i)) chronicle (u.does (last i)) := by
  obtain ⟨ends, happens⟩ := brings i
  rw [← ends, ← happens]
  exact runsTo_runAt readings

/-- What some work leads to after its first small step. -/
theorem Brings.tail (brings : program.Brings (now :: readings) s work chronicle u last)
    (onward : program.Onward now s work later fun i => t.does (next i)) (some : ι) :
    ∃ further, chronicle = later ++ further ∧ program.Brings readings t next further u last := by
  have leads : ∀ i, (t.does (next i)).runAt program readings = u.does (last i) ∧
      later ++ program.chronicleAt readings (t.does (next i)) = chronicle := by
    intro i
    obtain ⟨steps, happens⟩ := onward i
    obtain ⟨ends, chronicled⟩ := brings i
    rw [Execution.runAt_cons steps] at ends
    rw [Execution.chronicleAt_cons steps, happens] at chronicled
    exact ⟨ends, chronicled⟩
  refine ⟨_, (leads some).2.symm, fun i => ⟨(leads i).1, ?_⟩⟩
  exact List.append_cancel_left ((leads i).2.trans (leads some).2.symm)

end

/-- What a small step of a pass can do to a machine, with the timer that has triggered the step in
progress and the first failure so far, both before and after. -/
inductive Treads (program : Program σ Listener) (now : Timestamp) (i : Interpreter Listener) :
    Option (TimerKey × Nat) → Option InterpreterError → Chronicle Listener →
      Option (TimerKey × Nat) → Option InterpreterError → Interpreter Listener → Prop
  | rests (fired : Option (TimerKey × Nat)) (failure : Option InterpreterError) :
      Treads program now i fired failure [] fired failure i
  | tells (failure : Option InterpreterError) (number : Nat) (listener : Listener)
      (snapshot : Snapshot) :
      Treads program now i none failure [.told number listener snapshot] none failure i
  | skips (failure : Option InterpreterError) {signal : Signal} {queue : List Signal}
      (isQueue : i.queue = signal :: queue)
      (unhandled : i.isRunning = true →
        ∀ drain, Execution.stepOf? program { i with queue } drain signal = none) :
      Treads program now i none failure [.taken signal] none failure { i with queue }
  | takes (failure : Option InterpreterError) {signal : Signal} {queue : List Signal}
      (isQueue : i.queue = signal :: queue) (running : i.isRunning = true) :
      Treads program now i none failure [.taken signal] signal.fired failure { i with queue }
  | commits (failure : Option InterpreterError) {step : StepResult} {j : Interpreter Listener}
      (isPublished : i.commit program.definition now step = .published j) :
      Treads program now i step.fired failure (i.ended program.definition now step) none failure j
  | discards (fired : Option (TimerKey × Nat)) (failure : Option InterpreterError)
      (halted : i.lifecycle ≠ .running) : Treads program now i fired failure [] none failure i
  | fails (fired : Option (TimerKey × Nat)) (failure : Option InterpreterError)
      (error : InterpreterError) :
      Treads program now i fired failure [] none (failure.or (some error))
        { i with timers := i.timers.afterFailure fired }

theorem Treads.pendingStop (treads : program.Treads now i fired failure chronicle next noted j) :
    j.pendingStop = i.pendingStop := by
  cases treads with
  | commits failure isPublished => exact (Interpreter.published_of_commit isPublished).pendingStop
  | _ => rfl

/-- The clock stands still. -/
theorem Treads.now_eq (treads : program.Treads now i fired failure chronicle next noted j) :
    j.now = i.now := by
  cases treads with
  | commits failure isPublished => exact (Interpreter.published_of_commit isPublished).now_eq
  | fails fired failure error => cases fired <;> rfl
  | _ => rfl

/-- What a small step of a pass can lead to: the pass goes on, or it is over, or the clock
leaves its range. -/
inductive Proceeds (program : Program σ Listener) (now : Timestamp) (s : Standing σ Listener)
    (strand : Strand σ Listener) (fired : Option (TimerKey × Nat))
    (failure : Option InterpreterError) : Prop
  | goesOn {chronicle : Chronicle Listener} (t : Standing σ Listener) {later : Strand σ Listener}
      {next : Option (TimerKey × Nat)} {noted : Option InterpreterError}
      (treads : program.Treads now s.1 fired failure chronicle next noted t.1)
      (passing : later.Passing next noted)
      (onward : program.Onward now s strand chronicle fun resume => t.does (later resume))
  | returns {result : Except InterpreterError Delivery} (isOver : fired = none)
      (succeeds : ∀ delivery, result = .ok delivery → failure = none) (isEmpty : s.1.queue = [])
      (onward : program.Onward now s strand [] fun resume =>
        Standing.does (s.1.release.1, s.2) [resume result])
  | overflows (chronicle : Chronicle Listener) (interpreter : Interpreter Listener)
      (onward : program.Onward now s strand chronicle fun _ =>
        { interpreter, memory := s.2, overflowed := true })

/-- A signal that has a step is taken. -/
theorem onward_taken {signal : Signal} {queue : List Signal} {event : String} {plan : Plan}
    (isQueue : s.1.queue = signal :: queue) (running : s.1.isRunning = true)
    (found : ∀ drain, Execution.stepOf? program { s.1 with queue } drain signal =
      some (.begin (.signal signal.fired drain) event plan s.1.context))
    (first : Option Delivery) (failure : Option InterpreterError) :
    program.Onward now s (fun resume => [.draining { first, failure, resume }]) [.taken signal]
      fun resume => Standing.does ({ s.1 with queue }, s.2)
        [.stepping (.begin (.signal signal.fired { first, failure, resume }) event plan
          s.1.context)] := by
  intro resume
  have stillRunning : Interpreter.isRunning { s.1 with queue } = true := running
  constructor
  · simp only [Execution.step?, Standing.does, Execution.drainNext, isQueue, stillRunning, found,
      Bool.not_true, Bool.false_eq_true, if_false]
  · simp [happenings, Standing.does, isQueue]

/-- A pass over the queue that finds it empty is over. -/
theorem onward_returned (noStop : s.1.pendingStop = none) (isEmpty : s.1.queue = [])
    (first : Option Delivery) (failure : Option InterpreterError) :
    program.Onward now s (fun resume => [.draining { first, failure, resume }]) [] fun resume =>
      Standing.does (s.1.release.1, s.2)
        [resume (⟨first, failure, fun _ => ()⟩ : Drain Unit).result] := by
  intro resume
  constructor
  · simp only [Execution.step?, Standing.does, Execution.drainNext, isEmpty, Interpreter.release,
      noStop, Execution.noticeWork, List.nil_append]
    rfl
  · simp [happenings, Standing.does, isEmpty]

/-- A signal that is taken is passed over, or its step begins. -/
theorem onward_taking {signal : Signal} {queue : List Signal} (now : Timestamp)
    (isQueue : s.1.queue = signal :: queue) (first : Option Delivery)
    (failure : Option InterpreterError) :
    (∃ other, (s.1.isRunning = true →
        ∀ drain, Execution.stepOf? program { s.1 with queue } drain signal = none) ∧
      program.Onward now s (fun resume => [.draining { first, failure, resume }]) [.taken signal]
        fun resume => Standing.does ({ s.1 with queue }, s.2)
          [.draining { first := other, failure, resume }]) ∨
    s.1.isRunning = true ∧ ∃ event plan,
      program.Onward now s (fun resume => [.draining { first, failure, resume }]) [.taken signal]
        fun resume => Standing.does ({ s.1 with queue }, s.2)
          [.stepping (.begin (.signal signal.fired { first, failure, resume }) event plan
            s.1.context)] := by
  have taken : ∀ resume, program.happenings now (s.does
      [.draining { first, failure, resume }]) = [.taken signal] := by
    intro resume
    simp [happenings, Standing.does, isQueue]
  have sameRunning : Interpreter.isRunning { s.1 with queue } = s.1.isRunning := rfl
  have drains : ∀ resume, (s.does
      [.draining { first, failure, resume }]).step? program now = some _ := fun _ => rfl
  simp only [Execution.drainNext, Standing.does, isQueue, sameRunning] at drains
  cases running : s.1.isRunning with
  | false =>
      simp only [running, Bool.not_false, if_true] at drains
      exact .inl ⟨first.or (some .rejected), by simp, fun resume => ⟨drains resume, taken resume⟩⟩
  | true =>
      rcases stepOf?_cases program { s.1 with queue } signal with
        unhandled | ⟨event, plan, found⟩
      · simp only [running, unhandled, Bool.not_true, Bool.false_eq_true, if_false] at drains
        exact .inl ⟨first.or (some .ignored), fun _ => unhandled,
          fun resume => ⟨drains resume, taken resume⟩⟩
      · exact .inr ⟨rfl, event, plan, onward_taken isQueue running found first failure⟩

theorem proceeds_draining (noStop : s.1.pendingStop = none) (first : Option Delivery)
    (failure : Option InterpreterError) :
    program.Proceeds now s (fun resume => [.draining { first, failure, resume }]) none failure := by
  cases isQueue : s.1.queue with
  | nil =>
      have succeeds : ∀ delivery, (⟨first, failure, fun _ => ()⟩ : Drain Unit).result =
          .ok delivery → failure = none := by
        intro delivery isOk
        cases failure with
        | none => rfl
        | some error => cases isOk
      exact .returns rfl succeeds isQueue (onward_returned noStop isQueue first failure)
  | cons signal queue =>
      rcases onward_taking now isQueue first failure with
        ⟨other, unhandled, onward⟩ | ⟨running, event, plan, onward⟩
      · exact .goesOn ({ s.1 with queue }, s.2) (.skips failure isQueue unhandled)
          (.draining other failure) onward
      · exact .goesOn ({ s.1 with queue }, s.2) (.takes failure isQueue running)
          (.stepping signal.fired first failure event plan plan.invocations s.1.context []) onward

/-- A step whose actions are done takes effect, or is discarded, unless it leaves the range of the
clock. -/
theorem onward_committing (program : Program σ Listener) (now : Timestamp)
    (s : Standing σ Listener) (fired : Option (TimerKey × Nat)) (first : Option Delivery)
    (failure : Option InterpreterError) (event : String) (plan : Plan) (context : Context)
    (raised : List String) :
    program.Onward now s (fun resume =>
        [.stepping ⟨.signal fired { first, failure, resume }, event, plan, [], context, raised⟩])
      (s.1.ended program.definition now ⟨event, fired, true, plan, context, raised⟩) fun resume =>
        match s.1.commit program.definition now ⟨event, fired, true, plan, context, raised⟩ with
        | .discarded =>
          s.does [.draining { first := first.or (some .rejected), failure, resume }]
        | .published after =>
          Standing.does (after, s.2) [.notifying after.listeners after.snapshot,
            .draining { first := first.or (some .processed), failure, resume }]
        | .overflow after => { interpreter := after, memory := s.2, overflowed := true } := by
  intro resume
  refine ⟨?_, rfl⟩
  simp only [Execution.step?, Standing.does, Execution.stepNext, Execution.finish,
    RunningStep.result, Origin.fired, Origin.isRecorded, Execution.drainAfter]
  cases s.1.commit program.definition now ⟨event, fired, true, plan, context, raised⟩ <;> rfl

theorem proceeds_committing (fired : Option (TimerKey × Nat)) (first : Option Delivery)
    (failure : Option InterpreterError) (event : String) (plan : Plan) (context : Context)
    (raised : List String) :
    program.Proceeds now s (fun resume =>
      [.stepping ⟨.signal fired { first, failure, resume }, event, plan, [], context, raised⟩])
      fired failure := by
  have onward := onward_committing program now s fired first failure event plan context raised
  cases isCommit : s.1.commit program.definition now
      ⟨event, fired, true, plan, context, raised⟩ with
  | discarded =>
      have nothing : s.1.ended program.definition now
          ⟨event, fired, true, plan, context, raised⟩ = [] := by
        simp [Interpreter.ended, isCommit]
      rw [isCommit, nothing] at onward
      exact .goesOn s (.discards fired failure (Interpreter.halted_of_discarded isCommit))
        (.draining (first.or (some .rejected)) failure) onward
  | overflow after =>
      rw [isCommit] at onward
      exact .overflows _ after onward
  | published after =>
      rw [isCommit] at onward
      exact .goesOn (after, s.2) (.commits failure isCommit)
        (.notifying after.listeners after.snapshot (first.or (some .processed)) failure) onward

/-- The next action of a step is called, if it is registered. -/
theorem onward_calling (program : Program σ Listener) (now : Timestamp) (s : Standing σ Listener)
    (fired : Option (TimerKey × Nat)) (first : Option Delivery)
    (failure : Option InterpreterError) (event : String) (plan : Plan) (call : Invocation)
    (pending : List Invocation) (context : Context) (raised : List String) :
    program.Onward now s (fun resume =>
        [.stepping ⟨.signal fired { first, failure, resume }, event, plan, call :: pending,
          context, raised⟩]) [] fun resume =>
      match program.registry.action? call.action with
      | none => s.does [.stepping ⟨.signal fired { first, failure, resume }, event, plan, pending,
          context, raised⟩]
      | some action => s.does [.acting ⟨.signal fired { first, failure, resume }, event, plan,
          pending, context, raised⟩ call
            (action ⟨context, event, (program.definition.node call.state).id⟩)] := by
  intro resume
  refine ⟨?_, rfl⟩
  cases isAction : program.registry.action? call.action <;>
    simp [Execution.step?, Standing.does, Execution.stepNext, isAction]

theorem proceeds_stepping (fired : Option (TimerKey × Nat)) (first : Option Delivery)
    (failure : Option InterpreterError) (event : String) (plan : Plan)
    (pending : List Invocation) (context : Context) (raised : List String)
    (discreet : program.Discreet) :
    program.Proceeds now s (fun resume =>
      [.stepping ⟨.signal fired { first, failure, resume }, event, plan, pending, context,
        raised⟩]) fired failure := by
  cases pending with
  | nil => exact proceeds_committing fired first failure event plan context raised
  | cons call pending =>
      have onward := onward_calling program now s fired first failure event plan call pending
        context raised
      cases isAction : program.registry.action? call.action with
      | none =>
          rw [isAction] at onward
          exact .goesOn s (.rests fired failure)
            (.stepping fired first failure event plan pending context raised) onward
      | some action =>
          rw [isAction] at onward
          have silent := discreet.actions _ _ isAction
            ⟨context, event, (program.definition.node call.state).id⟩
          exact .goesOn s (.rests fired failure)
            (.acting fired first failure event plan pending context raised call silent) onward

theorem proceeds_acting (fired : Option (TimerKey × Nat)) (first : Option Delivery)
    (failure : Option InterpreterError) (event : String) (plan : Plan)
    (pending : List Invocation) (context : Context) (raised : List String) (call : Invocation)
    {code : Routine σ Listener (Except String ActionEffect)} (silent : code.Silent) :
    program.Proceeds now s (fun resume =>
      [.acting ⟨.signal fired { first, failure, resume }, event, plan, pending, context, raised⟩
        call code]) fired failure := by
  have acting : ∀ {code : Routine σ Listener (Except String ActionEffect)}, code.Silent → _ :=
    fun silent => Strand.Passing.acting fired first failure event plan pending context raised
      call silent
  have rests : program.Treads now s.1 fired failure [] fired failure s.1 := .rests fired failure
  cases code with
  | done result =>
      cases result with
      | ok effect =>
          exact .goesOn s rests (.stepping fired first failure event plan pending effect.context
            (raised ++ effect.raised)) fun _ => ⟨rfl, rfl⟩
      | error reason =>
          let error : InterpreterError := .actionFailed call.action
            (program.definition.node call.state).id event reason
          refine .goesOn ({ s.1 with timers := s.1.timers.afterFailure fired }, s.2)
            (.fails fired failure error)
            (.draining (first.or (some .rejected)) (failure.or (some error))) fun _ => ?_
          cases fired <;> exact ⟨rfl, rfl⟩
  | read next => exact .goesOn s rests (acting (silent s.2)) fun _ => ⟨rfl, rfl⟩
  | write memory next =>
      have silent : next.Silent := silent
      exact .goesOn (s.1, memory) rests (acting silent) fun _ => ⟨rfl, rfl⟩
  | ask request next => exact silent.elim

theorem proceeds_listening {code : Routine σ Listener Unit} (silent : code.Silent)
    (subscribers : List (Nat × Listener)) (snapshot : Snapshot) (first : Option Delivery)
    (failure : Option InterpreterError) :
    program.Proceeds now s (fun resume =>
      [.listening code, .notifying subscribers snapshot, .draining { first, failure, resume }])
      none failure := by
  have listening : ∀ {code : Routine σ Listener Unit}, code.Silent → _ :=
    fun silent => Strand.Passing.listening silent subscribers snapshot first failure
  have rests : program.Treads now s.1 none failure [] none failure s.1 := .rests none failure
  cases code with
  | done result =>
      exact .goesOn s rests (.notifying subscribers snapshot first failure) fun _ => ⟨rfl, rfl⟩
  | read next => exact .goesOn s rests (listening (silent s.2)) fun _ => ⟨rfl, rfl⟩
  | write memory next =>
      have silent : next.Silent := silent
      exact .goesOn (s.1, memory) rests (listening silent) fun _ => ⟨rfl, rfl⟩
  | ask request next => exact silent.elim

/-- Where nothing makes requests, a pass goes on by itself. -/
theorem proceeds_of_passing (passing : strand.Passing fired failure) (discreet : program.Discreet)
    (noStop : s.1.pendingStop = none) : program.Proceeds now s strand fired failure := by
  cases passing with
  | draining first => exact proceeds_draining noStop first failure
  | stepping _ first _ event plan pending context raised =>
      exact proceeds_stepping fired first failure event plan pending context raised discreet
  | acting _ first _ event plan pending context raised call silent =>
      exact proceeds_acting fired first failure event plan pending context raised call silent
  | notifying subscribers snapshot first =>
      cases subscribers with
      | nil => exact .goesOn s (.rests none failure) (.draining first failure) fun _ => ⟨rfl, rfl⟩
      | cons subscriber subscribers =>
          exact .goesOn s (.tells failure _ _ snapshot)
            (.listening (discreet.listeners subscriber.2 snapshot) subscribers snapshot first
              failure) fun _ => ⟨rfl, rfl⟩
  | listening silent subscribers snapshot first =>
      exact proceeds_listening silent subscribers snapshot first failure

/-- Readings of the clock along which a pass over the queue runs to its end, with a result,
and what happens in it. -/
abbrev Passes (program : Program σ Listener) (readings : List Timestamp)
    (before : Standing σ Listener) (strand : Strand σ Listener) (chronicle : Chronicle Listener)
    (result : Except InterpreterError Delivery) (after : Standing σ Listener) : Prop :=
  program.Brings readings before strand chronicle after fun resume => [resume result]

/-- A run of a pass that comes back to the driving code goes through the end of the pass. -/
theorem exists_passes {readings : List Timestamp}
    {resume : Except InterpreterError Delivery → Work σ Listener} {t : Standing σ Listener}
    {code : Routine σ Listener Unit} (passing : strand.Passing fired failure)
    (discreet : program.Discreet) (noStop : s.1.pendingStop = none)
    (ends : (s.does (strand resume)).runAt program readings = t.does [.client code]) :
    ∃ earlier later chronicle result u, readings = earlier ++ later ∧
      program.Passes earlier s strand chronicle result u ∧ u.Idle ∧ u.1.now = s.1.now ∧
      (u.does [resume result]).runAt program later = t.does [.client code] := by
  induction readings generalizing s strand fired failure with
  | nil => exact absurd (congrArg (·.work) ends) (passing.ne_client _ _)
  | cons now readings ih =>
      have proceeds : program.Proceeds now s strand fired failure :=
        proceeds_of_passing passing discreet noStop
      cases proceeds with
      | goesOn u treads passing onward =>
          rw [Execution.runAt_cons (onward resume).1] at ends
          obtain ⟨earlier, later, further, result, v, rfl, passes, idle, still, ends⟩ :=
            ih passing (treads.pendingStop.trans noStop) ends
          exact ⟨now :: earlier, later, _, result, v, rfl, onward.brings.append passes, idle,
            still.trans treads.now_eq, ends⟩
      | returns isOver succeeds isEmpty onward =>
          rw [Execution.runAt_cons (onward resume).1] at ends
          exact ⟨[now], readings, [], _, _, rfl, onward.brings, ⟨rfl, isEmpty, rfl⟩, rfl, ends⟩
      | overflows chronicle interpreter onward =>
          rw [Execution.runAt_cons (onward resume).1, Execution.runAt_of_no_work rfl] at ends
          cases congrArg (·.overflowed) ends

/-- The pass over the queue that begins. -/
def beginning : Strand σ Listener := fun resume => [.draining { resume }]

theorem beginning_passing : (beginning : Strand σ Listener).Passing none none := .draining none none

/-- A signal that reaches an idle machine begins a pass over the queue. -/
theorem deliver_of_idle {signal : Signal} {work : List (Work σ Listener)}
    {resume : Except InterpreterError Delivery → Work σ Listener} (idle : s.Idle)
    (running : s.1.isRunning = true) :
    (s.does work).deliver signal resume [] =
      Standing.does ({ s.1 with queue := [signal], busy := true }, s.2) (beginning resume) := by
  simp [Execution.deliver, Standing.does, running, Interpreter.enqueue, idle.busy, idle.queue,
    beginning]

/-- A program is discreet if its actions are silent where they are registered. -/
theorem discreet_of_silent
    (actions : ∀ entry ∈ program.registry.actions, ∀ call, (entry.2 call).Silent)
    (listeners : ∀ listener snapshot, (program.listen listener snapshot).Silent) :
    program.Discreet where
  actions name action isAction call := by
    obtain ⟨before, after, split, _⟩ := List.lookup_eq_some_iff.1 isAction
    exact actions (name, action) (by simp [split]) call
  listeners := listeners

/-- A hall whose bell only wakes the light, and in which whoever listens does nothing. -/
def quietHall : Program Unit Unit where
  definition := MachineSpec.hall.resolved
  registry.actions := [("ring", fun call => .done (.ok ⟨call.context, ["motion"]⟩))]
  listen _ _ := .done ()

theorem discreet_quietHall : quietHall.Discreet :=
  discreet_of_silent (List.forall_mem_singleton.2 fun _ => trivial) fun _ _ => trivial

end Program

end Statechart
