import Statechart.Proofs.Chronicle

/-!
# Phases

What the work in progress amounts to: code outside of the machine runs, or a step, or the
pass over the queue, or a notification. Nothing nests: a step or a pass is followed by
outside work only, and what lies under a notification is the pass that it belongs to or,
once the machine is stopped, outside work. A small step is one of a few moves between
phases, and what any run keeps is what every move keeps.
-/

namespace Statechart

variable {σ Listener : Type}

namespace Work

/-- Work of a kind, or moving the clock on behalf of such work. -/
inductive Leads (kind : Work σ Listener → Prop) : Work σ Listener → Prop
  | here {work : Work σ Listener} (isKind : kind work) : Leads kind work
  | advancing (limit : Duration) (fired : Nat)
      {resume : Except InterpreterError Nat → Work σ Listener}
      (after : ∀ result, Leads kind (resume result)) : Leads kind (.advancing limit fired resume)

def IsClient (work : Work σ Listener) : Prop := ∃ code, work = .client code

def IsListening (work : Work σ Listener) : Prop := ∃ code, work = .listening code

theorem leads_client (code : Routine σ Listener Unit) :
    Leads IsClient (.client code : Work σ Listener) := .here ⟨code, rfl⟩

theorem leads_listening (code : Routine σ Listener Unit) :
    Leads IsListening (.listening code : Work σ Listener) := .here ⟨code, rfl⟩

/-- The work of a step between or in its actions. -/
def IsOf (step : RunningStep (Work σ Listener)) (work : Work σ Listener) : Prop :=
  work = .stepping step ∨ ∃ call code, work = .acting step call code

/-- Work of whoever drives the machine: it is part of no step and of no notification. -/
abbrev Outside : Work σ Listener → Prop := Leads IsClient

end Work

inductive Phase (σ Listener : Type)
  | outside
  | step (step : RunningStep (Work σ Listener))
  /-- The pass over the queue, between two signals. -/
  | pass
  /-- The notification of a step that took effect. -/
  | news (subscribers : List (Nat × Listener)) (snapshot : Snapshot)
  /-- The notification of a stop. -/
  | farewell (subscribers : List (Nat × Listener)) (snapshot : Snapshot)

namespace Phase

open Work

/-- User code of a kind may run on top of the rest of the work. -/
inductive Hosts : Phase σ Listener → (Work σ Listener → Prop) → List (Work σ Listener) → Prop
  | client : Hosts .outside IsClient []
  | step {step : RunningStep (Work σ Listener)}
      (after : ∀ work, step.origin.LeadsTo work → Outside work) : Hosts (.step step) (IsOf step) []
  | news {subscribers : List (Nat × Listener)} {snapshot : Snapshot}
      {drain : Drain (Work σ Listener)}
      (after : ∀ result, Outside (drain.resume result)) :
      Hosts (.news subscribers snapshot) IsListening
        [.notifying subscribers snapshot, .draining drain]
  | farewell {subscribers : List (Nat × Listener)} {snapshot : Snapshot} {work : Work σ Listener}
      (outside : Outside work) :
      Hosts (.farewell subscribers snapshot) IsListening [.notifying subscribers snapshot, work]

/-- The work in progress, innermost first, is that of a phase. -/
inductive Arranged : Phase σ Listener → List (Work σ Listener) → Prop
  | ended : Arranged .outside []
  | hosted {phase : Phase σ Listener} {kind : Work σ Listener → Prop} {work : Work σ Listener}
      {rest : List (Work σ Listener)} (hosts : phase.Hosts kind rest) (leads : Leads kind work) :
      Arranged phase (work :: rest)
  | pass {drain : Drain (Work σ Listener)} (after : ∀ result, Outside (drain.resume result)) :
      Arranged .pass [.draining drain]
  | news {subscribers : List (Nat × Listener)} {snapshot : Snapshot}
      {drain : Drain (Work σ Listener)}
      (after : ∀ result, Outside (drain.resume result)) :
      Arranged (.news subscribers snapshot) [.notifying subscribers snapshot, .draining drain]
  | farewell {subscribers : List (Nat × Listener)} {snapshot : Snapshot} {work : Work σ Listener}
      (outside : Outside work) :
      Arranged (.farewell subscribers snapshot) [.notifying subscribers snapshot, work]

def isBusy : Phase σ Listener → Bool
  | .outside | .farewell _ _ => false
  | .step _ | .pass | .news _ _ => true

/-- The initial entry of a machine is in progress. -/
def isStarting : Phase σ Listener → Bool
  | .step entry => !entry.origin.isRecorded
  | .outside | .pass | .news _ _ | .farewell _ _ => false

/-- What the interpreter knows of a phase: it is busy during a step, its notification and
the pass over the queue; it is stopped if a farewell is told or put off. -/
structure Fits (phase : Phase σ Listener) (interpreter : Interpreter Listener) : Prop where
  busy : interpreter.busy = phase.isBusy
  farewell : ∀ subscribers snapshot, phase = .farewell subscribers snapshot →
    interpreter.lifecycle = .stopped
  putOff : interpreter.pendingStop ≠ none → interpreter.lifecycle = .stopped

/-- An idle machine that has not been stopped leaves the turn to outside work. -/
theorem Fits.eq_outside {phase : Phase σ Listener} {i : Interpreter Listener} (fits : phase.Fits i)
    (isIdle : i.busy = false) (lasts : i.lifecycle ≠ .stopped) : phase = .outside := by
  have notBusy := fits.busy.symm.trans isIdle
  cases phase with
  | outside => rfl
  | farewell subscribers snapshot => exact absurd (fits.farewell _ _ rfl) lasts
  | step | pass | news => cases notBusy

/-- The phase that goes on where a farewell may have to be told first. -/
def bidding (phase : Phase σ Listener) :
    Option (List (Nat × Listener) × Snapshot) → Phase σ Listener
  | none => phase
  | some (subscribers, snapshot) => .farewell subscribers snapshot

theorem starting_of_bidding {phase : Phase σ Listener}
    {notice : Option (List (Nat × Listener) × Snapshot)}
    (isStarting : (phase.bidding notice).isStarting = true) : phase.isStarting = true := by
  cases notice with
  | none => exact isStarting
  | some pair => cases isStarting

end Phase

/-- A signal that may enter the queue, and the timers once it has: an event of some
routine, or a timer that is due. -/
inductive Interpreter.Signalled (interpreter : Interpreter Listener) : Signal → Timers → Prop
  | event (name : String) : Signalled interpreter (.event name) interpreter.timers
  | timer {limit : Duration} {timer : Timer} {timers : Timers}
      (due : interpreter.timers.pop? limit = some (timer, timers)) :
      Signalled interpreter (.timer timer.key timer.generation) timers

namespace Interpreter

/-- A stop is told at once only where nothing is in progress. -/
theorem stop_notice {i : Interpreter Listener} (told : i.stop.2 ≠ none) :
    i.stop.1.busy = false ∧ i.stop.1.lifecycle = .stopped := by
  cases lifecycle : i.lifecycle <;> cases busy : i.busy <;>
    simp [Interpreter.stop, lifecycle, busy] at told ⊢

/-- Only a machine that is stopped has put off to say so. -/
theorem stop_putOff {i : Interpreter Listener}
    (before : i.pendingStop ≠ none → i.lifecycle = .stopped)
    (putOff : i.stop.1.pendingStop ≠ none) :
    i.stop.1.lifecycle = .stopped := by
  cases lifecycle : i.lifecycle <;> cases busy : i.busy <;>
    simp_all [Interpreter.stop]

end Interpreter

/-- The timers once a step of a signal has failed. -/
def Timers.afterFailure (timers : Timers) : Option (TimerKey × Nat) → Timers
  | some (key, generation) => timers.rearm key generation
  | none => timers

namespace Program

/-- What a small step can do: the phase and the interpreter before, what happens, and both
after. -/
inductive Move (program : Program σ Listener) (now : Timestamp) :
    Phase σ Listener → Interpreter Listener → Chronicle Listener →
      Phase σ Listener → Interpreter Listener → Prop
  | quiet (phase : Phase σ Listener) (i : Interpreter Listener) :
      Move program now phase i [] phase i
  | act {step next : RunningStep (Work σ Listener)} (i : Interpreter Listener)
      (sameOrigin : next.origin = step.origin) (sameEvent : next.event = step.event)
      (samePlan : next.plan = step.plan) (later : next.pending <:+ step.pending) :
      Move program now (.step step) i [] (.step next) i
  | begin {i : Interpreter Listener} (unstarted : i.lifecycle = .notStarted)
      (resume : Except InterpreterError Unit → Work σ Listener) :
      Move program now .outside i []
        (.step (.begin (.start resume) initEvent program.definition.initialPlan
          program.definition.context))
        { i with lifecycle := .running, busy := true }
  | enter {phase : Phase σ Listener} {i : Interpreter Listener} {signal : Signal} {timers : Timers}
      (isRunning : i.isRunning = true) (isBusy : i.busy = true)
      (source : i.Signalled signal timers) :
      Move program now phase i [.entered signal] phase
        (Interpreter.enqueue { i with timers } signal)
  | wake {i : Interpreter Listener} {signal : Signal} {timers : Timers}
      (isRunning : i.isRunning = true) (isIdle : i.busy = false)
      (source : i.Signalled signal timers) :
      Move program now .outside i [.entered signal] .pass
        { Interpreter.enqueue { i with timers } signal with busy := true }
  | stop (phase : Phase σ Listener) (i : Interpreter Listener) :
      Move program now phase i (i.requested program.definition .stop) (phase.bidding i.stop.2)
        i.stop.1
  | subscribe (phase : Phase σ Listener) (i : Interpreter Listener) (listener : Listener) :
      Move program now phase i [] phase (i.subscribe listener).1
  | unsubscribe (phase : Phase σ Listener) (i : Interpreter Listener) (number : Nat) :
      Move program now phase i [.unsubscribed number] phase (i.unsubscribe number).1
  | settle (phase : Phase σ Listener) (i : Interpreter Listener) (limit : Duration) :
      Move program now phase i [] phase { i with timers := i.timers.settle limit }
  | tell (i : Interpreter Listener) (number : Nat) (listener : Listener)
      (subscribers : List (Nat × Listener)) (snapshot : Snapshot) :
      Move program now (.news ((number, listener) :: subscribers) snapshot) i
        [.told number listener snapshot] (.news subscribers snapshot) i
  | bid (i : Interpreter Listener) (number : Nat) (listener : Listener)
      (subscribers : List (Nat × Listener)) (snapshot : Snapshot) :
      Move program now (.farewell ((number, listener) :: subscribers) snapshot) i
        [.told number listener snapshot] (.farewell subscribers snapshot) i
  | resume (i : Interpreter Listener) (snapshot : Snapshot) :
      Move program now (.news [] snapshot) i [] .pass i
  | leave (i : Interpreter Listener) (snapshot : Snapshot) :
      Move program now (.farewell [] snapshot) i [] .outside i
  | skip {i : Interpreter Listener} {signal : Signal} {queue : List Signal}
      (isQueue : i.queue = signal :: queue)
      (unhandled : i.isRunning = true →
        ∃ drain, Execution.stepOf? program { i with queue } drain signal = none) :
      Move program now .pass i [.taken signal] .pass { i with queue }
  | take {i : Interpreter Listener} {signal : Signal} {queue : List Signal}
      {drain : Drain (Work σ Listener)} {step : RunningStep (Work σ Listener)}
      (isQueue : i.queue = signal :: queue) (isRunning : i.isRunning = true)
      (found : Execution.stepOf? program { i with queue } drain signal = some step) :
      Move program now .pass i [.taken signal] (.step step) { i with queue }
  | release {i : Interpreter Listener} (isEmpty : i.queue = []) :
      Move program now .pass i [] (Phase.outside.bidding i.release.2) i.release.1
  | discard {i : Interpreter Listener} {step : RunningStep (Work σ Listener)}
      (isDiscarded : i.commit program.definition now step.result = .discarded) :
      Move program now (.step step) i [] .pass i
  | publish {i published : Interpreter Listener} {step : RunningStep (Work σ Listener)}
      (isPublished : i.commit program.definition now step.result = .published published) :
      Move program now (.step step) i (i.ended program.definition now step.result)
        (.news published.listeners published.snapshot) published
  | abandon {i : Interpreter Listener} {step : RunningStep (Work σ Listener)}
      {resume : Except InterpreterError Unit → Work σ Listener}
      (isStart : step.origin = .start resume) :
      Move program now (.step step) i [.dropped] (Phase.outside.bidding i.abandonStart.2)
        i.abandonStart.1
  | fail {i : Interpreter Listener} {step : RunningStep (Work σ Listener)}
      {fired : Option (TimerKey × Nat)} {drain : Drain (Work σ Listener)}
      (isSignal : step.origin = .signal fired drain) :
      Move program now (.step step) i [] .pass
        { i with timers := i.timers.afterFailure fired }

/-- An execution within the range of the clock is in a phase. -/
structure Situated (program : Program σ Listener) (phase : Phase σ Listener)
    (execution : Execution σ Listener) : Prop where
  inRange : execution.overflowed = false
  orderly : program.Orderly execution
  arranged : phase.Arranged execution.work
  fits : phase.Fits execution.interpreter

/-- A small step is a move, or the clock leaves its range and everything else ends there. -/
def Moves (program : Program σ Listener) (now : Timestamp) (phase : Phase σ Listener)
    (i : Interpreter Listener) (happenings : Chronicle Listener)
    (after : Execution σ Listener) : Prop :=
  (after.overflowed = false ∧ ∃ next : Phase σ Listener, next.Arranged after.work ∧
      program.Move now phase i happenings next after.interpreter) ∨
    (after.overflowed = true ∧ happenings = [] ∧
      ∃ timers, after.interpreter = { i with timers })

section

variable {program : Program σ Listener} {now : Timestamp} {phase : Phase σ Listener}
variable {execution : Execution σ Listener} {kind : Work σ Listener → Prop}
variable {rest : List (Work σ Listener)} {step : RunningStep (Work σ Listener)}

open Work

theorem moves_to {i : Interpreter Listener} {happenings : Chronicle Listener}
    {next : Phase σ Listener} {after : Execution σ Listener} (inRange : after.overflowed = false)
    (arranged : next.Arranged after.work)
    (move : program.Move now phase i happenings next after.interpreter) :
    program.Moves now phase i happenings after := .inl ⟨inRange, next, arranged, move⟩

theorem arranged_notice {work : Work σ Listener} (outside : Outside work)
    (notice : Option (List (Nat × Listener) × Snapshot)) :
    (Phase.outside.bidding notice).Arranged (Execution.noticeWork notice ++ [work]) := by
  cases notice with
  | none => exact .hosted .client outside
  | some pair => exact .farewell outside

section Hosted

variable (inRange : execution.overflowed = false) (hosts : phase.Hosts kind rest)

include inRange hosts

theorem moves_quietly {memory : σ} {work : Work σ Listener} (leads : Leads kind work) :
    program.Moves now phase execution.interpreter []
      { execution with memory, work := work :: rest } :=
  moves_to inRange (.hosted hosts leads) (.quiet _ _)

variable (fits : phase.Fits execution.interpreter)

include fits

/-- While nothing is in progress that could be interrupted, a signal starts a pass over the
queue; else it waits. -/
theorem moves_deliver {signal : Signal} {timers : Timers}
    {resume : Except InterpreterError Delivery → Work σ Listener}
    (isRunning : execution.interpreter.isRunning = true)
    (source : execution.interpreter.Signalled signal timers)
    (leads : ∀ result, Leads kind (resume result)) :
    program.Moves now phase execution.interpreter [.entered signal]
      (Execution.deliver { execution with interpreter := { execution.interpreter with timers } }
        signal resume rest) := by
  have stillRunning : Interpreter.isRunning { execution.interpreter with timers } = true :=
    isRunning
  simp only [Execution.deliver, stillRunning, Bool.not_true, Bool.false_eq_true, if_false]
  split
  · next isBusy => exact moves_to inRange (.hosted hosts (leads _)) (.enter isRunning isBusy source)
  · next notBusy =>
    have isIdle : execution.interpreter.busy = false := Bool.eq_false_iff.2 notBusy
    cases hosts with
    | client => exact moves_to inRange (.pass leads) (.wake isRunning isIdle source)
    | step after => cases isIdle.symm.trans fits.busy
    | news after => cases isIdle.symm.trans fits.busy
    | farewell outside => simp [Interpreter.isRunning, fits.farewell _ _ rfl] at isRunning

theorem moves_advanceNext {limit : Duration} {fired : Nat}
    {resume : Except InterpreterError Nat → Work σ Listener}
    (leads : ∀ result, Leads kind (resume result)) :
    program.Moves now phase execution.interpreter (execution.interpreter.fired limit)
      (execution.advanceNext rest limit fired resume) := by
  simp only [Execution.advanceNext, Interpreter.fired]
  split
  · next isRunning =>
    cases due : execution.interpreter.timers.pop? limit with
    | none => exact moves_to inRange (.hosted hosts (leads _)) (.settle _ _ _)
    | some popped =>
        obtain ⟨timer, timers⟩ := popped
        apply moves_deliver inRange hosts fits isRunning (.timer due)
        intro result
        cases result with
        | ok delivery => exact .advancing _ _ leads
        | error error => exact leads _
  · exact moves_to inRange (.hosted hosts (leads _)) (.settle _ _ _)

theorem moves_stop {resume : Unit → Work σ Listener} (leads : Leads kind (resume ())) :
    program.Moves now phase execution.interpreter
      (execution.interpreter.requested program.definition .stop)
      { execution with
        interpreter := execution.interpreter.stop.1
        work := Execution.noticeWork execution.interpreter.stop.2 ++ resume () :: rest } := by
  refine moves_to inRange ?_ (.stop _ _)
  have unnoticed : execution.interpreter.stop.2 = none →
      (phase.bidding execution.interpreter.stop.2).Arranged
        (Execution.noticeWork execution.interpreter.stop.2 ++ resume () :: rest) := by
    intro noNotice
    rw [noNotice]
    exact .hosted hosts leads
  -- only outside of all steps and notifications is a notice due at once
  cases hosts with
  | client => exact arranged_notice leads _
  | step after => exact unnoticed (Interpreter.stop_of_busy fits.busy)
  | news after => exact unnoticed (Interpreter.stop_of_busy fits.busy)
  | farewell outside => exact unnoticed (by simp [Interpreter.stop, fits.farewell _ _ rfl])

/-- Every request is a move, whoever makes it. -/
theorem moves_meet {request : Request Listener} {resume : request.Answer → Work σ Listener}
    (tidy : execution.interpreter.Tidy program.definition)
    (leads : ∀ answer, Leads kind (resume answer)) :
    program.Moves now phase execution.interpreter
      (execution.interpreter.requested program.definition request)
      (execution.meet program rest request resume) := by
  cases request with
  | start =>
      simp only [Execution.meet]
      split
      · exact moves_quietly inRange hosts (leads _)
      · next unstarted =>
        have isUnstarted : execution.interpreter.lifecycle = .notStarted := by simpa using unstarted
        have isIdle := (tidy.unstarted isUnstarted).1
        cases hosts with
        | client =>
            refine moves_to inRange (.hosted (.step ?_) (.here (.inl rfl)))
              (.begin isUnstarted resume)
            rintro work ⟨result, rfl⟩
            exact leads result
        | step after => cases isIdle.symm.trans fits.busy
        | news after => cases isIdle.symm.trans fits.busy
        | farewell outside => cases isUnstarted.symm.trans (fits.farewell _ _ rfl)
  | send event =>
      simp only [Execution.meet, Interpreter.requested]
      split
      · next isRunning =>
        exact moves_deliver inRange hosts fits isRunning (.event event) leads
      · next notRunning =>
        have refused : execution.deliver (.event event) resume rest =
            { execution with work := resume (.ok .rejected) :: rest } := by
          simp [Execution.deliver, Bool.eq_false_iff.2 notRunning]
        rw [refused]
        exact moves_quietly inRange hosts (leads _)
  | stop => exact moves_stop inRange hosts fits (leads ())
  | advance span =>
      simp only [Execution.meet]
      split
      · exact moves_quietly inRange hosts (leads _)
      · split
        · exact moves_quietly inRange hosts (.advancing _ _ leads)
        · exact .inr ⟨rfl, rfl, _, rfl⟩
  | subscribe listener => exact moves_to inRange (.hosted hosts (leads _)) (.subscribe _ _ _)
  | unsubscribe number => exact moves_to inRange (.hosted hosts (leads _)) (.unsubscribe _ _ _)
  | can event => exact moves_quietly inRange hosts (leads _)
  | look => exact moves_quietly inRange hosts (leads _)

end Hosted

theorem outside_drainAfter {origin : Origin (Work σ Listener)}
    (after : ∀ work, origin.LeadsTo work → Outside work) (delivery : Delivery)
    (result : Except InterpreterError Delivery) :
    Outside ((Execution.drainAfter origin delivery).resume result) := by
  cases origin with
  | start resume => exact after _ ⟨_, rfl⟩
  | signal fired drain => exact after _ ⟨result, rfl⟩

/-- User code runs on, makes a request, or comes to its end. -/
theorem moves_proceed {α : Type} {around : Routine σ Listener α → Work σ Listener}
    {finish : α → Execution σ Listener} (atEnd : α → Chronicle Listener)
    (code : Routine σ Listener α) (inRange : execution.overflowed = false)
    (hosts : phase.Hosts kind rest) (fits : phase.Fits execution.interpreter)
    (tidy : execution.interpreter.Tidy program.definition)
    (leads : ∀ code, Leads kind (around code))
    (finished : ∀ result, program.Moves now phase execution.interpreter (atEnd result)
      (finish result)) :
    program.Moves now phase execution.interpreter
      (match code with
        | .done result => atEnd result
        | .ask request _ => execution.interpreter.requested program.definition request
        | .read _ | .write _ _ => [])
      (execution.proceed program rest around finish code) := by
  cases code with
  | done result => exact finished result
  | read next => exact moves_quietly inRange hosts (leads _)
  | write memory next => exact moves_quietly inRange hosts (leads _)
  | ask request next =>
      exact moves_meet inRange hosts fits tidy fun answer => leads (next answer)

section Step

variable (inRange : execution.overflowed = false)
variable (after : ∀ work, step.origin.LeadsTo work → Outside work)

include inRange after

theorem moves_finish :
    program.Moves now (.step step) execution.interpreter
      (execution.interpreter.ended program.definition now step.result)
      (execution.finish program now [] step) := by
  unfold Execution.finish
  split
  · next isDiscarded =>
    have nothing : execution.interpreter.ended program.definition now step.result = [] := by
      simp [Interpreter.ended, isDiscarded]
    rw [nothing]
    exact moves_to inRange (.pass (outside_drainAfter after _)) (.discard isDiscarded)
  · next halted overflows =>
    have nothing : execution.interpreter.ended program.definition now step.result = [] := by
      simp [Interpreter.ended, overflows]
    obtain ⟨timers, rfl⟩ := Interpreter.eq_of_overflow overflows
    exact .inr ⟨rfl, nothing, _, rfl⟩
  · next published isPublished =>
    exact moves_to inRange (.news (outside_drainAfter after _)) (.publish isPublished)

theorem moves_abort (error : InterpreterError) :
    program.Moves now (.step step) execution.interpreter
      (match step.origin with
        | .start _ => [.dropped]
        | .signal _ _ => [])
      (execution.abort [] step error) := by
  unfold Execution.abort
  cases origin : step.origin with
  | start resume =>
      have outside : Outside (resume (.error error)) := after _ (origin ▸ ⟨_, rfl⟩)
      exact moves_to inRange (arranged_notice outside _) (.abandon origin)
  | signal fired drain =>
      have onward : ∀ result, Outside (drain.resume result) :=
        fun result => after _ (origin ▸ ⟨result, rfl⟩)
      refine moves_to inRange (.pass ?_) ?_
      · exact onward
      · cases fired with
        | none => exact .fail origin
        | some timer => exact .fail origin

theorem moves_stepNext :
    program.Moves now (.step step) execution.interpreter
      (match step.pending with
        | [] => execution.interpreter.ended program.definition now step.result
        | _ :: _ => [])
      (execution.stepNext program now [] step) := by
  cases pending : step.pending with
  | nil =>
      have runsOut : execution.stepNext program now [] step =
          execution.finish program now [] step := by
        simp [Execution.stepNext, pending]
      rw [runsOut]
      exact moves_finish inRange after
  | cons call later =>
      have hosts : Phase.Hosts (.step { step with pending := later }) _ [] := .step after
      have isLater : later <:+ step.pending := pending ▸ List.suffix_cons call later
      simp only [Execution.stepNext, pending]
      cases program.registry.action? call.action with
      | none =>
          exact moves_to inRange (.hosted hosts (.here (.inl rfl))) (.act _ rfl rfl rfl isLater)
      | some action =>
          exact moves_to inRange (.hosted hosts (.here (.inr ⟨_, _, rfl⟩)))
            (.act _ rfl rfl rfl isLater)

theorem moves_actionDone (call : Invocation) (outcome : Except String ActionEffect) :
    program.Moves now (.step step) execution.interpreter
      (match outcome with
        | .ok _ => []
        | .error _ =>
          match step.origin with
          | .start _ => [.dropped]
          | .signal _ _ => [])
      (execution.actionDone program [] step call outcome) := by
  cases outcome with
  | ok effect =>
      have hosts : Phase.Hosts (.step { step with
          context := effect.context, raised := step.raised ++ effect.raised }) _ [] := .step after
      exact moves_to inRange (.hosted hosts (.here (.inl rfl)))
        (.act _ rfl rfl rfl List.suffix_rfl)
  | error reason => exact moves_abort inRange after _

end Step

theorem moves_drainNext {drain : Drain (Work σ Listener)} (inRange : execution.overflowed = false)
    (after : ∀ result, Outside (drain.resume result)) :
    program.Moves now .pass execution.interpreter
      ((execution.interpreter.queue.take 1).map .taken)
      (execution.drainNext program [] drain) := by
  unfold Execution.drainNext
  split
  · next isEmpty =>
    rw [isEmpty]
    exact moves_to inRange (arranged_notice (after _) _) (.release isEmpty)
  · next signal queue isQueue =>
    rw [isQueue]
    have passing : ∀ result, Phase.pass.Arranged [Work.draining (drain.note result)] := by
      intro result
      cases result with
      | ok delivery => exact .pass after
      | error error => exact .pass after
    dsimp only
    split
    · next notRunning =>
      refine moves_to inRange (passing _) (.skip isQueue fun isRunning => ?_)
      simp [Interpreter.isRunning] at notRunning isRunning
      exact absurd isRunning notRunning
    · next notHalted =>
      have isRunning : execution.interpreter.isRunning = true := by
        simpa [Interpreter.isRunning] using notHalted
      split
      · next step found =>
        refine moves_to inRange (.hosted (.step ?_) (.here (.inl rfl)))
          (.take isQueue isRunning found)
        rintro work leadsTo
        rw [begun_of_stepOf? found] at leadsTo
        obtain ⟨result, rfl⟩ := leadsTo
        exact after result
      · next found =>
        exact moves_to inRange (passing _) (.skip isQueue fun _ => ⟨drain, found⟩)

/-- User code that is not that of an action runs on, and where it ends the work beneath it
does. -/
theorem moves_code {around : Routine σ Listener Unit → Work σ Listener}
    (code : Routine σ Listener Unit) (inRange : execution.overflowed = false)
    (hosts : phase.Hosts kind rest) (fits : phase.Fits execution.interpreter)
    (tidy : execution.interpreter.Tidy program.definition)
    (leads : ∀ code, Leads kind (around code)) (beneath : phase.Arranged rest) :
    program.Moves now phase execution.interpreter
      (match code with
        | .ask request _ => execution.interpreter.requested program.definition request
        | .done _ | .read _ | .write _ _ => [])
      (execution.proceed program rest around (fun _ => { execution with work := rest }) code) := by
  have ends : program.Moves now phase execution.interpreter [] { execution with work := rest } :=
    moves_to inRange beneath (.quiet _ _)
  have moves := moves_proceed (fun _ => []) code inRange hosts fits tidy leads fun _ => ends
  cases code <;> exact moves

/-- What is done on top of the work of a phase is a move. -/
theorem moves_hosted {after : Execution σ Listener} {work : Work σ Listener}
    (inRange : execution.overflowed = false) (hosts : phase.Hosts kind rest)
    (leads : Leads kind work) (fits : phase.Fits execution.interpreter)
    (tidy : execution.interpreter.Tidy program.definition)
    (isWork : execution.work = work :: rest) (steps : execution.step? program now = some after) :
    program.Moves now phase execution.interpreter (program.happenings now execution) after := by
  simp only [Execution.step?, isWork] at steps
  simp only [happenings, isWork]
  cases leads with
  | advancing limit fired resumes =>
      obtain rfl := Option.some.inj steps
      exact moves_advanceNext inRange hosts fits resumes
  | here isKind =>
      cases hosts with
      | client =>
          obtain ⟨code, rfl⟩ := isKind
          obtain rfl := Option.some.inj steps
          have moves : program.Moves now _ _ _ _ :=
            moves_code code inRange .client fits tidy leads_client .ended
          cases code <;> exact moves
      | @step step outside =>
          rcases isKind with rfl | ⟨call, code, rfl⟩
          · obtain rfl := Option.some.inj steps
            exact moves_stepNext inRange outside
          · obtain rfl := Option.some.inj steps
            have ends : ∀ outcome, program.Moves now (.step step) _ _ _ :=
              fun outcome => moves_actionDone inRange outside call outcome
            have moves := moves_proceed _ code inRange (.step outside) fits tidy
              (fun code => .here (.inr ⟨call, code, rfl⟩)) ends
            cases code with
            | done outcome => cases outcome <;> exact moves
            | read next => exact moves
            | write memory next => exact moves
            | ask request next => exact moves
      | news outside =>
          obtain ⟨code, rfl⟩ := isKind
          obtain rfl := Option.some.inj steps
          have moves : program.Moves now _ _ _ _ :=
            moves_code code inRange (.news outside) fits tidy leads_listening (.news outside)
          cases code <;> exact moves
      | farewell outside =>
          obtain ⟨code, rfl⟩ := isKind
          obtain rfl := Option.some.inj steps
          have moves : program.Moves now _ _ _ _ :=
            moves_code code inRange (.farewell outside) fits tidy leads_listening
              (.farewell outside)
          cases code <;> exact moves

/-- Whatever the phase, a small step is a move. -/
theorem Situated.moves {before after : Execution σ Listener}
    (situated : program.Situated phase before)
    (steps : before.step? program now = some after) :
    program.Moves now phase before.interpreter (program.happenings now before) after := by
  obtain ⟨inRange, orderly, arranged, fits⟩ := situated
  cases isWork : before.work with
  | nil => simp [Execution.step?, isWork] at steps
  | cons top rest =>
      rw [isWork] at arranged
      cases arranged with
      | hosted hosts leads =>
          have tidy := (orderly.sound isWork).2.tidy
          exact moves_hosted inRange hosts leads fits tidy isWork steps
      | pass outside =>
          simp only [Execution.step?, isWork, Option.some.injEq] at steps
          simp only [happenings, isWork, ← steps]
          exact moves_drainNext inRange outside
      | @news subscribers snapshot drain outside =>
          cases subscribers with
          | nil =>
              simp only [Execution.step?, isWork, Option.some.injEq] at steps
              simp only [happenings, isWork, ← steps]
              exact moves_to inRange (.pass outside) (.resume _ _)
          | cons subscriber subscribers =>
              simp only [Execution.step?, isWork, Option.some.injEq] at steps
              simp only [happenings, isWork, ← steps]
              exact moves_to inRange (.hosted (.news outside) (leads_listening _))
                (.tell _ _ _ _ _)
      | @farewell subscribers snapshot work outside =>
          cases subscribers with
          | nil =>
              simp only [Execution.step?, isWork, Option.some.injEq] at steps
              simp only [happenings, isWork, ← steps]
              exact moves_to inRange (.hosted .client outside) (.leave _ _)
          | cons subscriber subscribers =>
              simp only [Execution.step?, isWork, Option.some.injEq] at steps
              simp only [happenings, isWork, ← steps]
              exact moves_to inRange (.hosted (.farewell outside) (leads_listening _))
                (.bid _ _ _ _ _)

end

section

variable {program : Program σ Listener} {now : Timestamp} {phase next : Phase σ Listener}
variable {i after : Interpreter Listener} {happenings : Chronicle Listener}

theorem fits_bidding (fits : phase.Fits i) (notice : Option (List (Nat × Listener) × Snapshot))
    (told : notice ≠ none → i.busy = false ∧ i.lifecycle = .stopped) :
    (phase.bidding notice).Fits i := by
  cases notice with
  | none => exact fits
  | some pair =>
      obtain ⟨isIdle, isStopped⟩ := told (by simp)
      exact ⟨isIdle, fun _ _ _ => isStopped, fits.putOff⟩

/-- A move leads to a phase that fits again. -/
theorem Move.fits (move : program.Move now phase i happenings next after)
    (tidy : i.Tidy program.definition) (fits : phase.Fits i) : next.Fits after := by
  cases move with
  | quiet => exact fits
  | act => exact ⟨fits.busy, fun _ _ other => (by cases other), fits.putOff⟩
  | begin unstarted resume =>
      have nothing := (tidy.idle (tidy.unstarted unstarted).1).2
      exact ⟨rfl, fun _ _ other => (by cases other), fun putOff => absurd nothing putOff⟩
  | enter => exact ⟨fits.busy, fits.farewell, fits.putOff⟩
  | wake isRunning isIdle source =>
      have nothing := (tidy.idle isIdle).2
      exact ⟨rfl, fun _ _ other => (by cases other), fun putOff => absurd nothing putOff⟩
  | stop =>
      obtain ⟨sameBusy, _⟩ := i.stop_spec
      refine fits_bidding ⟨sameBusy.trans fits.busy, fun s n isFarewell => ?_, fun putOff => ?_⟩ _
        Interpreter.stop_notice
      · simp [Interpreter.stop, fits.farewell s n isFarewell]
      · exact Interpreter.stop_putOff fits.putOff putOff
  | subscribe => exact ⟨fits.busy, fits.farewell, fits.putOff⟩
  | unsubscribe => exact ⟨fits.busy, fits.farewell, fits.putOff⟩
  | settle => exact ⟨fits.busy, fits.farewell, fits.putOff⟩
  | tell => exact ⟨fits.busy, fun _ _ other => (by cases other), fits.putOff⟩
  | bid => exact ⟨fits.busy, fun _ _ _ => fits.farewell _ _ rfl, fits.putOff⟩
  | resume => exact ⟨fits.busy, fun _ _ other => (by cases other), fits.putOff⟩
  | leave => exact ⟨fits.busy, fun _ _ other => (by cases other), fits.putOff⟩
  | skip => exact ⟨fits.busy, fits.farewell, fits.putOff⟩
  | take => exact ⟨fits.busy, fun _ _ other => (by cases other), fits.putOff⟩
  | release =>
      have idle : (Phase.outside : Phase σ Listener).Fits i.release.1 :=
        ⟨rfl, fun _ _ other => (by cases other), fun putOff => absurd rfl putOff⟩
      exact fits_bidding idle _ fun told => ⟨rfl, fits.putOff told⟩
  | discard => exact ⟨fits.busy, fun _ _ other => (by cases other), fits.putOff⟩
  | publish isPublished =>
      have published := Interpreter.published_of_commit isPublished
      refine ⟨published.busy.trans fits.busy, fun _ _ other => (by cases other), fun putOff => ?_⟩
      rw [published.pendingStop] at putOff
      cases published.wasRunning.symm.trans (fits.putOff putOff)
  | abandon isStart =>
      have idle : (Phase.outside : Phase σ Listener).Fits i.abandonStart.1 :=
        ⟨rfl, fun _ _ other => (by cases other), fun putOff => absurd rfl putOff⟩
      refine fits_bidding idle _ fun told => ⟨rfl, ?_⟩
      have isStopped := fits.putOff told
      simp [Interpreter.abandonStart, Interpreter.release, isStopped]
  | fail => exact ⟨fits.busy, fun _ _ other => (by cases other), fits.putOff⟩

/-- A move commits nothing, or the step that it publishes. -/
theorem Move.commits_one (move : program.Move now phase i happenings next after) :
    Chronicle.commitments happenings = [] ∨
      ∃ step, phase = .step step ∧
        i.commit program.definition now step.result = .published after ∧
        Chronicle.commitments happenings =
          [i.commitment after program.definition now step.result] := by
  cases move with
  | stop =>
      left
      cases lifecycle : i.lifecycle <;>
        simp [Interpreter.requested, lifecycle, Happening.committed?]
  | publish isPublished =>
      exact .inr ⟨_, rfl, isPublished, Interpreter.commitments_ended isPublished⟩
  | _ => exact .inl rfl

/-- Nothing has been committed while a machine is not started or its start is in progress. -/
theorem Move.unstarted (move : program.Move now phase i happenings next after)
    (unstarted : next.isStarting = true ∨ after.lifecycle = .notStarted) :
    (phase.isStarting = true ∨ i.lifecycle = .notStarted) ∧
      Chronicle.commitments happenings = [] := by
  cases move with
  | begin notStarted => exact ⟨.inr notStarted, rfl⟩
  | act _ sameOrigin =>
      refine ⟨unstarted.imp_left fun isStarting => ?_, rfl⟩
      simpa [Phase.isStarting, sameOrigin] using isStarting
  | stop =>
      have started := (i.stop_spec).2.2.2.1
      have isStarting := Phase.starting_of_bidding (unstarted.resolve_right started)
      refine ⟨.inl isStarting, ?_⟩
      cases lifecycle : i.lifecycle <;>
        simp [Interpreter.requested, lifecycle, Happening.committed?]
  | publish isPublished =>
      rcases (Interpreter.published_of_commit isPublished).outcome with
        ⟨_, _, ⟨other, _⟩ | ⟨other, _⟩⟩
      · simp [Phase.isStarting, other] at unstarted
      · simp [Phase.isStarting, other] at unstarted
  | abandon isStart => exact ⟨.inl (by simp [Phase.isStarting, isStart, Origin.isRecorded]), rfl⟩
  | take _ _ found =>
      rw [begun_of_stepOf? found] at unstarted
      have notStarted := unstarted.resolve_left
        (by simp [Phase.isStarting, RunningStep.begin, Origin.isRecorded])
      exact ⟨.inr notStarted, rfl⟩
  | release =>
      refine ⟨.inr (unstarted.resolve_left fun isStarting => ?_), rfl⟩
      cases Phase.starting_of_bidding isStarting
  | discard => exact ⟨.inr (unstarted.resolve_left Bool.false_ne_true), rfl⟩
  | fail => exact ⟨.inr (unstarted.resolve_left Bool.false_ne_true), rfl⟩
  | _ => exact ⟨unstarted, rfl⟩

/-- What a move can rely on. -/
structure Settled (program : Program σ Listener) (phase : Phase σ Listener)
    (i : Interpreter Listener) : Prop where
  fits : phase.Fits i
  tidy : i.Tidy program.definition
  planned : ∀ step, phase = .step step → program.Planned i.configuration i.context step

theorem planned_of_leads {sound : RunningStep (Work σ Listener) → Prop} {owner : Bool}
    {work : Work σ Listener} {step : RunningStep (Work σ Listener)}
    (leads : Work.Leads (Work.IsOf step) work) (shaped : Work.Shaped sound owner work) :
    sound step := by
  induction leads with
  | here isKind =>
      rcases isKind with rfl | ⟨call, code, rfl⟩
      · cases shaped with
        | stepping isSound => exact isSound
      · cases shaped with
        | acting _ _ isSound => exact isSound
  | advancing limit fired after ih =>
      cases shaped with
      | advancing _ _ shaped => exact ih (.ok 0) (shaped _)

/-- A step in progress is the one that its signal called for. -/
theorem Situated.settled {execution : Execution σ Listener}
    (situated : program.Situated phase execution) :
    program.Settled phase execution.interpreter := by
  have sound : program.Sound execution.interpreter execution.work := by
    simpa [Orderly, situated.inRange] using situated.orderly
  refine ⟨situated.fits, sound.tidy, ?_⟩
  rintro step rfl
  have stacked := sound.stacked
  have arranged := situated.arranged
  cases isWork : execution.work with
  | nil =>
      rw [isWork] at arranged
      cases arranged
  | cons work rest =>
      rw [isWork] at arranged stacked
      obtain ⟨owner, shaped, _⟩ := Work.stacked_cons_iff.1 stacked
      cases arranged with
      | hosted hosts leads =>
          cases hosts
          exact planned_of_leads leads shaped

/-- Within the range of the clock a small step leads from phase to phase. -/
theorem Situated.advance {before after : Execution σ Listener}
    (situated : program.Situated phase before) (steps : before.step? program now = some after)
    (inRange : after.overflowed = false) :
    ∃ next : Phase σ Listener, program.Situated next after ∧
      program.Move now phase before.interpreter (program.happenings now before) next
        after.interpreter := by
  rcases situated.moves steps with ⟨_, next, arranged, move⟩ | ⟨overflowed, _⟩
  · have settled := situated.settled
    have orderly := situated.orderly.next ⟨now, steps⟩
    exact ⟨next, ⟨inRange, orderly, arranged, move.fits settled.tidy settled.fits⟩, move⟩
  · cases inRange.symm.trans overflowed

theorem situated_ofClient {memory : σ} {code : Routine σ Listener Unit}
    (begins : program.Begins i) :
    program.Situated .outside (Execution.ofClient i memory code) where
  inRange := rfl
  orderly := orderly_ofClient begins
  arranged := .hosted .client (Work.leads_client code)
  fits := by
    obtain ⟨tidy, isIdle⟩ := begins.tidy
    refine ⟨isIdle, fun _ _ other => ?_, fun putOff => absurd (tidy.idle isIdle).2 putOff⟩
    cases other

variable {start execution : Execution σ Listener} {chronicle : Chronicle Listener}

/-- A run goes on within the range of the clock only. -/
theorem RunsTo.situated (run : program.RunsTo start chronicle execution)
    (situated : program.Situated phase start) :
    (execution.overflowed = false ∧
        ∃ current : Phase σ Listener, program.Situated current execution) ∨
      (execution.overflowed = true ∧ execution.work = []) := by
  induction run with
  | refl => exact .inl ⟨situated.inRange, phase, situated⟩
  | @tail chronicle before after now _ step ih =>
      rcases ih with ⟨_, current, isCurrent⟩ | ⟨_, noWork⟩
      · have orderly := isCurrent.orderly.next ⟨now, step⟩
        cases range : after.overflowed with
        | false =>
            obtain ⟨next, isNext, _⟩ := isCurrent.advance step range
            exact .inl ⟨rfl, next, isNext⟩
        | true => exact .inr ⟨rfl, by simpa [Orderly, range] using orderly⟩
      · simp [Execution.step?, noWork] at step

/-- What a run goes on from is within the range of the clock if its end is. -/
theorem RunsTo.inRange_of_onward {last : Execution σ Listener} {later : Chronicle Listener}
    (run : program.RunsTo start chronicle execution) (situated : program.Situated phase start)
    (onward : program.RunsTo execution later last) (inRange : last.overflowed = false) :
    execution.overflowed = false := by
  rcases run.situated situated with ⟨stillInRange, _⟩ | ⟨_, noWork⟩
  · exact stillInRange
  · obtain ⟨_, rfl⟩ := onward.eq_of_no_work noWork
    exact inRange

/-- What a small step starts from is within the range of the clock. -/
theorem RunsTo.situated_before {after : Execution σ Listener}
    (run : program.RunsTo start chronicle execution) (situated : program.Situated phase start)
    (step : execution.step? program now = some after) :
    ∃ current : Phase σ Listener, program.Situated current execution := by
  rcases run.situated situated with ⟨_, isCurrent⟩ | ⟨_, noWork⟩
  · exact isCurrent
  · simp [Execution.step?, noWork] at step

/-- Outside of the range of the clock a run ends: nothing has happened since, and only
timers have changed. -/
theorem RunsTo.before_overflow (run : program.RunsTo start chronicle execution)
    (situated : program.Situated phase start) (overflowed : execution.overflowed = true) :
    ∃ before timers, program.RunsTo start chronicle before ∧ before.overflowed = false ∧
      execution.interpreter = { before.interpreter with timers } := by
  cases run with
  | refl => cases situated.inRange.symm.trans overflowed
  | @tail chronicle before _ now run step =>
      obtain ⟨current, isCurrent⟩ := run.situated_before situated step
      rcases isCurrent.moves step with ⟨inRange, _⟩ | ⟨_, nothing, timers, same⟩
      · cases inRange.symm.trans overflowed
      · rw [nothing, List.append_nil]
        exact ⟨before, timers, run, isCurrent.inRange, same⟩

/-- A run comes within the range of the clock to all but the timers of its end. -/
theorem RunsTo.exists_inRange (run : program.RunsTo start chronicle execution)
    (situated : program.Situated phase start) :
    ∃ last timers, program.RunsTo start chronicle last ∧ last.overflowed = false ∧
      execution.interpreter = { last.interpreter with timers } := by
  cases overflowed : execution.overflowed with
  | false => exact ⟨execution, execution.interpreter.timers, run, overflowed, rfl⟩
  | true => exact run.before_overflow situated overflowed

/-- What holds at the beginning and is kept by every move holds all along a run. -/
theorem RunsTo.induct
    (invariant : Phase σ Listener → Interpreter Listener → Chronicle Listener → Prop)
    (run : program.RunsTo start chronicle execution) (inRange : execution.overflowed = false)
    (situated : program.Situated phase start) (initially : invariant phase start.interpreter [])
    (kept : ∀ {now phase i happenings next after chronicle}, program.Settled phase i →
      program.Move now phase i happenings next after → invariant phase i chronicle →
      invariant next after (chronicle ++ happenings)) :
    ∃ current : Phase σ Listener, program.Situated current execution ∧
      invariant current execution.interpreter chronicle := by
  induction run with
  | refl => exact ⟨phase, situated, initially⟩
  | @tail chronicle before after now run step ih =>
      obtain ⟨_, isSituated⟩ := run.situated_before situated step
      obtain ⟨current, isCurrent, holds⟩ := ih isSituated.inRange
      obtain ⟨next, isNext, move⟩ := isCurrent.advance step inRange
      exact ⟨next, isNext, kept isCurrent.settled move holds⟩

end

end Program

end Statechart
