import Statechart.Proofs.RunToCompletion
import Statechart.Proofs.TimerSignals

/-!
# The end of a machine

A machine that is done or stopped is over. It refuses what it is asked, lets the work that is
still in progress run out and passes over the signals that still wait. So every run comes to
its end, and nothing of the machine itself changes on the way.
-/

namespace Statechart

variable {σ Listener : Type}

namespace Interpreter

variable {i after last : Interpreter Listener}

/-- The machine is done, or it has been stopped. -/
def IsOver (interpreter : Interpreter Listener) : Prop :=
  interpreter.lifecycle = .done ∨ interpreter.lifecycle = .stopped

/-- What a machine that is over answers to a request. -/
def lastAnswer (interpreter : Interpreter Listener) : (request : Request Listener) → request.Answer
  | .start => .error .alreadyStarted
  | .send _ => .ok .rejected
  | .stop => ()
  | .advance _ => .ok 0
  | .subscribe listener => (interpreter.subscribe listener).2
  | .unsubscribe number => (interpreter.unsubscribe number).2
  | .can _ => false
  | .look => interpreter

/-- What a request makes of a machine that is over: who is subscribed may change, and a stop
drops the signals of one that is done. -/
def afterRequest (interpreter : Interpreter Listener) : Request Listener → Interpreter Listener
  | .stop => interpreter.stop.1
  | .subscribe listener => (interpreter.subscribe listener).1
  | .unsubscribe number => (interpreter.unsubscribe number).1
  | .start | .send _ | .advance _ | .can _ | .look => interpreter

/-- Nothing of the machine itself has changed: how far it has come in its life, what is
active, its context, its history and what it shows. -/
structure Unmoved (before after : Interpreter Listener) : Prop where
  lifecycle : after.lifecycle = before.lifecycle
  configuration : after.configuration = before.configuration
  context : after.context = before.context
  history : after.history = before.history
  snapshot : after.snapshot = before.snapshot

theorem lifecycle_stop (interpreter : Interpreter Listener) :
    interpreter.stop.1.lifecycle = if interpreter.lifecycle = .done then .done else .stopped := by
  cases lifecycle : interpreter.lifecycle <;> cases busy : interpreter.busy <;>
    simp [stop, lifecycle, busy]

theorem Unmoved.refl (interpreter : Interpreter Listener) : interpreter.Unmoved interpreter :=
  ⟨rfl, rfl, rfl, rfl, rfl⟩

theorem Unmoved.trans (first : i.Unmoved after) (second : after.Unmoved last) :
    i.Unmoved last where
  lifecycle := second.lifecycle.trans first.lifecycle
  configuration := second.configuration.trans first.configuration
  context := second.context.trans first.context
  history := second.history.trans first.history
  snapshot := second.snapshot.trans first.snapshot

theorem Unmoved.isOver (unmoved : i.Unmoved after) (isOver : i.IsOver) : after.IsOver := by
  rw [IsOver, unmoved.lifecycle]
  exact isOver

namespace IsOver

variable (isOver : i.IsOver)

include isOver

theorem not_running : i.lifecycle ≠ .running := by
  rcases isOver with isDone | isStopped
  · simp [isDone]
  · simp [isStopped]

theorem isRunning_eq : i.isRunning = false := by
  simpa [isRunning] using isOver.not_running

theorem started : i.lifecycle ≠ .notStarted := by
  rcases isOver with isDone | isStopped
  · simp [isDone]
  · simp [isStopped]

/-- A stop that comes after the end tells nobody. -/
theorem stop_eq : i.stop.2 = none := by
  rcases isOver with isDone | isStopped
  · simp [stop, isDone]
  · simp [stop, isStopped]

theorem unmoved_stop : i.Unmoved i.stop.1 := by
  rcases isOver with isDone | isStopped
  · simp only [stop, isDone]
    exact ⟨isDone.symm, rfl, rfl, rfl, rfl⟩
  · simp only [stop, isStopped]
    exact .refl i

theorem unmoved_afterRequest (request : Request Listener) :
    i.Unmoved (i.afterRequest request) := by
  cases request with
  | stop => exact isOver.unmoved_stop
  | subscribe listener => exact ⟨rfl, rfl, rfl, rfl, rfl⟩
  | unsubscribe number => exact ⟨rfl, rfl, rfl, rfl, rfl⟩
  | start | send | advance | can | look => exact .refl i

theorem unmoved_abandonStart : i.Unmoved i.abandonStart.1 := by
  have notRunning := isOver.not_running
  simp only [abandonStart, release, notRunning, if_false]
  exact ⟨rfl, rfl, rfl, rfl, rfl⟩

theorem commit_eq {definition : Definition} {now : Timestamp} {step : StepResult} :
    i.commit definition now step = .discarded := by
  simp [commit, isOver.not_running]

end IsOver

end Interpreter

namespace Execution

variable {program : Program σ Listener} {execution : Execution σ Listener}
variable {rest : List (Work σ Listener)}

/-- A machine that is over meets every request at once. -/
theorem meet_of_over (isOver : execution.interpreter.IsOver) (request : Request Listener)
    (resume : request.Answer → Work σ Listener) :
    execution.meet program rest request resume =
      { execution with
        interpreter := execution.interpreter.afterRequest request
        work := resume (execution.interpreter.lastAnswer request) :: rest } := by
  have notRunning := isOver.isRunning_eq
  cases request with
  | start => simp [meet, isOver.started, Interpreter.afterRequest, Interpreter.lastAnswer]
  | send event =>
      simp [meet, deliver, notRunning, Interpreter.afterRequest, Interpreter.lastAnswer]
  | stop => simp [meet, isOver.stop_eq, noticeWork, Interpreter.afterRequest, Interpreter.lastAnswer]
  | advance span => simp [meet, notRunning, Interpreter.afterRequest, Interpreter.lastAnswer]
  | subscribe listener => rfl
  | unsubscribe number => rfl
  | can event => simp [meet, notRunning, Interpreter.afterRequest, Interpreter.lastAnswer]
  | look => rfl

end Execution

/-- The request that is made next. -/
def Execution.request? (execution : Execution σ Listener) : Option (Request Listener) :=
  match execution.work with
  | .client (.ask request _) :: _ | .listening (.ask request _) :: _
  | .acting _ _ (.ask request _) :: _ => some request
  | _ => none

/-- Whoever has the turn makes a request. -/
def Execution.Requests (execution : Execution σ Listener) (request : Request Listener) : Prop :=
  execution.request? = some request

theorem Work.Asks.requests {execution : Execution σ Listener} {asking : Work σ Listener}
    {rest : List (Work σ Listener)} {request : Request Listener}
    {resume : request.Answer → Work σ Listener} (asks : asking.Asks request resume)
    (isWork : execution.work = asking :: rest) : execution.Requests request := by
  cases asks <;> simp [Execution.Requests, Execution.request?, isWork]

theorem Execution.Requests.exists_asks {execution : Execution σ Listener}
    {request : Request Listener} (requests : execution.Requests request) :
    ∃ asking rest resume, execution.work = asking :: rest ∧ Work.Asks asking request resume := by
  unfold Requests request? at requests
  split at requests
  · next next rest isWork =>
    obtain rfl := Option.some.inj requests
    exact ⟨_, rest, _, isWork, .client _ next⟩
  · next next rest isWork =>
    obtain rfl := Option.some.inj requests
    exact ⟨_, rest, _, isWork, .listening _ next⟩
  · next step call _ next rest isWork =>
    obtain rfl := Option.some.inj requests
    exact ⟨_, rest, _, isWork, .acting step call _ next⟩
  · cases requests

theorem Execution.Requests.step_eq {program : Program σ Listener} {now : Timestamp}
    {before after : Execution σ Listener} {request : Request Listener}
    (requests : before.Requests request) (steps : before.step? program now = some after) :
    ∃ rest resume, after = before.meet program rest request resume := by
  obtain ⟨asking, rest, resume, isWork, asks⟩ := requests.exists_asks
  rw [asks.step_eq isWork] at steps
  exact ⟨rest, resume, (Option.some.inj steps).symm⟩

/-- What becomes of a machine that is over in one small step. It stays within the range of the
clock, nothing of the machine itself changes, and the subscribers do only where it is
requested. -/
structure Execution.Subsides (before after : Execution σ Listener) : Prop where
  sameRange : after.overflowed = before.overflowed
  unmoved : before.interpreter.Unmoved after.interpreter
  subscribers : after.interpreter.listeners = before.interpreter.listeners ∨
    ∃ request, before.Requests request ∧
      after.interpreter = before.interpreter.afterRequest request

/-- A step is in progress, between two actions or in one of them. -/
def Execution.Performs (execution : Execution σ Listener)
    (step : RunningStep (Work σ Listener)) : Prop :=
  ∃ work ∈ execution.work, Work.Leads (Work.IsOf step) work

namespace Phase

open Work

variable {phase : Phase σ Listener} {work : List (Work σ Listener)}
variable {step : RunningStep (Work σ Listener)}

theorem processing_of_leads {some : Work σ Listener} (leads : Leads (IsOf step) some) :
    Processing some := leads.mono fun _ isOf => .inr ⟨step, isOf⟩

/-- Work in progress is that of one step at most. -/
theorem eq_of_leads {other : RunningStep (Work σ Listener)} {some : Work σ Listener}
    (leads : Leads (IsOf step) some) (also : Leads (IsOf other) some) : other = step := by
  obtain ⟨work, isOf, isOther⟩ := leads.common also fun _ _ _ => by simp [IsOf]
  rcases isOf with rfl | ⟨call, code, rfl⟩
  · simpa [IsOf, eq_comm] using isOther
  · simpa [IsOf, eq_comm] using isOther

/-- A step is in progress exactly in its phase. -/
theorem Arranged.performs_iff (arranged : phase.Arranged work) :
    (∃ some ∈ work, Leads (IsOf step) some) ↔ phase = .step step := by
  have notDraining : ∀ drain, ¬ Leads (IsOf step) (.draining drain) := by
    rintro drain ⟨isOf⟩
    simp [IsOf] at isOf
  have notNotifying : ∀ subscribers snapshot,
      ¬ Leads (IsOf step) (.notifying subscribers snapshot) := by
    rintro subscribers snapshot ⟨isOf⟩
    simp [IsOf] at isOf
  have notOutside : ∀ {some}, Outside some → ¬ Leads (IsOf step) some :=
    fun outside leads => not_processing_of_outside outside (processing_of_leads leads)
  have notListening : ∀ {some}, Leads IsListening some → ¬ Leads (IsOf step) some :=
    fun listening leads => not_processing_of_listening listening (processing_of_leads leads)
  cases arranged with
  | ended => simp
  | pass after => simp [notDraining]
  | news after => simp [notDraining, notNotifying]
  | farewell outside => simp [notNotifying, notOutside outside]
  | hosted hosts leads =>
      cases hosts with
      | client => simp [notOutside leads]
      | @step other after =>
          simp only [List.mem_singleton, exists_eq_left, Phase.step.injEq]
          constructor
          · exact fun isOf => eq_of_leads isOf leads
          · rintro rfl
            exact leads
      | news after => simp [notListening leads, notDraining, notNotifying]
      | farewell outside => simp [notListening leads, notNotifying, notOutside outside]

end Phase

namespace Program

/-- Every run of an execution comes to an end, at whatever readings of the clock. -/
def Ends (program : Program σ Listener) (execution : Execution σ Listener) : Prop :=
  ∃ last, Relation.ReflTransGen program.Surely execution last ∧ last.work = []

/-- Work that runs out once the machine is over, whatever it stands on. -/
def Finishes (program : Program σ Listener) (work : Work σ Listener) : Prop :=
  ∀ (execution : Execution σ Listener) rest, execution.interpreter.IsOver →
    execution.work = work :: rest →
    (∀ later : Execution σ Listener, later.interpreter.IsOver → later.work = rest →
      program.Ends later) → program.Ends execution

variable {program : Program σ Listener} {execution before after : Execution σ Listener}
variable {rest : List (Work σ Listener)} {chronicle : Chronicle Listener}

theorem Ends.head (first : program.Surely before after) (ends : program.Ends after) :
    program.Ends before := by
  obtain ⟨last, steps, noWork⟩ := ends
  exact ⟨last, .head first steps, noWork⟩

/-- Where everything on a stack of work runs out, the stack does. -/
theorem ends_of_finishes {work : List (Work σ Listener)}
    (finishes : ∀ some ∈ work, program.Finishes some) (isOver : execution.interpreter.IsOver)
    (isWork : execution.work = work) : program.Ends execution := by
  induction work generalizing execution with
  | nil => exact ⟨execution, .refl, isWork⟩
  | cons top rest ih =>
      refine finishes top (.head _) execution rest isOver isWork fun later stillOver isRest => ?_
      exact ih (fun some member => finishes some (.tail _ member)) stillOver isRest

/-- User code runs to its end, whatever it requests. -/
theorem ends_of_code {α : Type} {around : Routine σ Listener α → Work σ Listener}
    (steps : ∀ (execution : Execution σ Listener) code, execution.work = around code :: rest →
      ∃ finish, ∀ now, execution.step? program now =
        some (execution.proceed program rest around finish code))
    (code : Routine σ Listener α) (isOver : execution.interpreter.IsOver)
    (isWork : execution.work = around code :: rest)
    (onward : ∀ (later : Execution σ Listener) result, later.interpreter.IsOver →
      later.work = around (.done result) :: rest → program.Ends later) :
    program.Ends execution := by
  induction code generalizing execution with
  | done result => exact onward execution result isOver isWork
  | read next ih =>
      obtain ⟨_, step⟩ := steps execution _ isWork
      exact .head step (ih execution.memory isOver rfl)
  | write memory next ih =>
      obtain ⟨_, step⟩ := steps execution _ isWork
      refine .head step (ih ?_ rfl)
      exact isOver
  | ask request next ih =>
      obtain ⟨_, step⟩ := steps execution _ isWork
      have meets : program.Surely execution (execution.meet program rest request _) := step
      rw [Execution.meet_of_over isOver] at meets
      refine .head meets (ih _ ?_ rfl)
      exact (isOver.unmoved_afterRequest request).isOver isOver

/-- Code that is no action leaves nothing behind. -/
theorem finishes_of_code {around : Routine σ Listener Unit → Work σ Listener}
    (steps : ∀ (execution : Execution σ Listener) rest code,
      execution.work = around code :: rest → ∀ now, execution.step? program now =
        some (execution.proceed program rest around (fun _ => { execution with work := rest })
          code))
    (code : Routine σ Listener Unit) : program.Finishes (around code) := by
  intro execution rest isOver isWork ends
  apply ends_of_code (fun execution code isWork => ⟨_, steps execution rest code isWork⟩) code
    isOver isWork
  intro later result stillOver isDone
  have ended : program.Surely later { later with work := rest } := steps later rest _ isDone
  exact .head ended (ends _ stillOver rfl)

theorem finishes_client (code : Routine σ Listener Unit) :
    program.Finishes (.client code) :=
  finishes_of_code (fun _ _ _ isWork _ => by simp only [Execution.step?, isWork]) code

theorem finishes_listening (code : Routine σ Listener Unit) :
    program.Finishes (.listening code) :=
  finishes_of_code (fun _ _ _ isWork _ => by simp only [Execution.step?, isWork]) code

theorem finishes_notifying (subscribers : List (Nat × Listener)) (snapshot : Snapshot) :
    program.Finishes (.notifying subscribers snapshot) := by
  induction subscribers with
  | nil =>
      intro execution rest isOver isWork ends
      refine .head (fun now => ?_) (ends { execution with work := rest } isOver rfl)
      simp [Execution.step?, isWork]
  | cons subscriber subscribers ih =>
      intro execution rest isOver isWork ends
      have tells : program.Surely execution { execution with
          work := .listening (program.listen subscriber.2 snapshot) ::
            .notifying subscribers snapshot :: rest } := by
        intro now
        simp [Execution.step?, isWork]
      refine .head tells (finishes_listening _ _ _ isOver rfl fun later stillOver isRest => ?_)
      exact ih later rest stillOver isRest ends

/-- Work that finishes does so behind a notice. -/
theorem ends_behind_notice {work : Work σ Listener} (finishes : program.Finishes work)
    (notice : Option (List (Nat × Listener) × Snapshot)) (isOver : execution.interpreter.IsOver)
    (isWork : execution.work = Execution.noticeWork notice ++ work :: rest)
    (ends : ∀ later : Execution σ Listener, later.interpreter.IsOver → later.work = rest →
      program.Ends later) : program.Ends execution := by
  cases notice with
  | none => exact finishes execution rest isOver isWork ends
  | some pair =>
      refine finishes_notifying pair.1 pair.2 execution _ isOver isWork fun later stillOver isRest => ?_
      exact finishes later rest stillOver isRest ends

/-- The signals that wait are passed over, one by one. -/
theorem drainNext_of_over {drain : Drain (Work σ Listener)} {signal : Signal}
    {queue : List Signal} (isOver : execution.interpreter.IsOver)
    (isQueue : execution.interpreter.queue = signal :: queue) :
    execution.drainNext program rest drain =
      { execution with
        interpreter := { execution.interpreter with queue }
        work := .draining (drain.note (.ok .rejected)) :: rest } := by
  have notRunning : Interpreter.isRunning { execution.interpreter with queue } = false :=
    isOver.isRunning_eq
  simp [Execution.drainNext, isQueue, notRunning]

theorem finishes_draining {drain : Drain (Work σ Listener)}
    (after : ∀ result, program.Finishes (drain.resume result)) :
    program.Finishes (.draining drain) := by
  intro execution rest isOver isWork ends
  generalize isQueue : execution.interpreter.queue = queue
  have drains : program.Surely execution (execution.drainNext program rest drain) :=
    fun now => by simp [Execution.step?, isWork]
  induction queue generalizing execution drain with
  | nil =>
      simp only [Execution.drainNext, isQueue] at drains
      have stillOver : execution.interpreter.release.1.IsOver := isOver
      exact .head drains (ends_behind_notice (after drain.result) _ stillOver rfl ends)
  | cons signal queue ih =>
      rw [drainNext_of_over isOver isQueue] at drains
      have onward : ∀ result, program.Finishes ((drain.note (.ok .rejected)).resume result) := after
      refine .head drains (ih onward _ ?_ rfl rfl fun now => rfl)
      exact isOver

/-- The pass over the queue that goes on after a step, whatever has become of it. -/
theorem finishes_drainAfter {origin : Origin (Work σ Listener)}
    (after : ∀ work, origin.LeadsTo work → program.Finishes work) (delivery : Delivery) :
    program.Finishes (.draining (Execution.drainAfter origin delivery)) := by
  cases origin with
  | start resume => exact finishes_draining fun result => after _ ⟨_, rfl⟩
  | signal fired drain =>
      have onward : ∀ result, program.Finishes ((drain.note (.ok delivery)).resume result) :=
        fun result => after _ ⟨result, rfl⟩
      exact finishes_draining onward

theorem ends_abort {step : RunningStep (Work σ Listener)} (error : InterpreterError)
    (after : ∀ work, step.origin.LeadsTo work → program.Finishes work)
    (isOver : execution.interpreter.IsOver)
    (ends : ∀ later : Execution σ Listener, later.interpreter.IsOver → later.work = rest →
      program.Ends later) : program.Ends (execution.abort rest step error) := by
  unfold Execution.abort
  cases origin : step.origin with
  | start resume =>
      have finishes := after (resume (.error error)) (origin ▸ ⟨_, rfl⟩)
      have stillOver := isOver.unmoved_abandonStart.isOver isOver
      exact ends_behind_notice finishes _ stillOver rfl ends
  | signal fired drain =>
      have onward : ∀ result, program.Finishes ((drain.note (.error error)).resume result) :=
        fun result => after _ (origin ▸ ⟨result, rfl⟩)
      refine finishes_draining onward _ rest ?_ rfl ends
      exact isOver

/-- An action runs to its end; then the rest of its step does, or the step is given up. -/
theorem finishes_acting (step : RunningStep (Work σ Listener))
    (after : ∀ work, step.origin.LeadsTo work → program.Finishes work)
    (onward : ∀ context raised, program.Finishes (.stepping { step with context, raised }))
    (call : Invocation) (code : Routine σ Listener (Except String ActionEffect)) :
    program.Finishes (.acting step call code) := by
  intro execution rest isOver isWork ends
  have steps : ∀ (execution : Execution σ Listener) code,
      execution.work = .acting step call code :: rest → ∀ now, execution.step? program now =
        some (execution.proceed program rest (.acting step call)
          (execution.actionDone program rest step call) code) :=
    fun _ _ isWork _ => by simp only [Execution.step?, isWork]
  apply ends_of_code (fun execution code isWork => ⟨_, steps execution code isWork⟩) code
    isOver isWork
  intro later outcome stillOver isDone
  have acts : program.Surely later (later.actionDone program rest step call outcome) :=
    steps later _ isDone
  cases outcome with
  | ok effect => exact .head acts (onward _ _ _ rest stillOver rfl ends)
  | error reason => exact .head acts (ends_abort _ after stillOver ends)

theorem finishes_stepping {step : RunningStep (Work σ Listener)}
    (after : ∀ work, step.origin.LeadsTo work → program.Finishes work) :
    program.Finishes (.stepping step) := by
  obtain ⟨origin, event, plan, pending, context, raised⟩ := step
  induction pending generalizing context raised with
  | nil =>
      intro execution rest isOver isWork ends
      refine .head (fun now => ?_) (finishes_drainAfter after .rejected
        { execution with work := .draining (Execution.drainAfter origin .rejected) :: rest } rest
        isOver rfl ends)
      simp [Execution.step?, isWork, Execution.stepNext, Execution.finish, isOver.commit_eq]
  | cons call pending ih =>
      intro execution rest isOver isWork ends
      have steps : ∀ now, execution.step? program now = some (execution.stepNext program now rest
          ⟨origin, event, plan, call :: pending, context, raised⟩) :=
        fun now => by simp [Execution.step?, isWork]
      simp only [Execution.stepNext] at steps
      cases isAction : program.registry.action? call.action with
      | none =>
          simp only [isAction] at steps
          exact .head steps (ih context raised after _ rest isOver rfl ends)
      | some action =>
          simp only [isAction] at steps
          let step : RunningStep (Work σ Listener) :=
            ⟨origin, event, plan, pending, context, raised⟩
          have onward : ∀ context raised,
              program.Finishes (.stepping { step with context, raised }) :=
            fun context raised => ih context raised after
          have acting := finishes_acting step after onward call
          exact .head steps (acting _ _ rest isOver rfl ends)

/-- All work of a machine that is over runs out. -/
theorem finishes_of_shaped {sound : RunningStep (Work σ Listener) → Prop} {owner : Bool}
    {work : Work σ Listener} (shaped : Work.Shaped sound owner work) : program.Finishes work := by
  induction shaped with
  | client code => exact finishes_client code
  | listening code => exact finishes_listening code
  | notifying subscribers snapshot => exact finishes_notifying subscribers snapshot
  | draining after ih => exact finishes_draining ih
  | stepping isSound after ih => exact finishes_stepping ih
  | acting call code isSound after ih =>
      exact finishes_acting _ ih (fun context raised => finishes_stepping ih) call code
  | advancing limit fired after ih =>
      intro execution rest isOver isWork ends
      refine .head (fun now => ?_) (ih (.ok fired)
        { execution with
          interpreter := { execution.interpreter with
            timers := execution.interpreter.timers.settle limit }
          work := _ } rest isOver rfl ends)
      simp [Execution.step?, isWork, Execution.advanceNext, isOver.isRunning_eq]

theorem shaped_of_stacked {sound : RunningStep (Work σ Listener) → Prop} {busy : Bool}
    {work : List (Work σ Listener)} (stacked : Work.Stacked sound busy work)
    {some : Work σ Listener} (member : some ∈ work) : ∃ owner, Work.Shaped sound owner some := by
  induction work generalizing busy with
  | nil => cases member
  | cons top rest ih =>
      rcases stacked with ⟨shaped, below⟩ | ⟨_, shaped, below⟩
      · rcases List.mem_cons.1 member with rfl | later
        · exact ⟨false, shaped⟩
        · exact ih below later
      · rcases List.mem_cons.1 member with rfl | later
        · exact ⟨true, shaped⟩
        · exact ih below later

/-- Once a machine is over every run comes to its end. -/
theorem Orderly.ends (orderly : program.Orderly execution)
    (isOver : execution.interpreter.IsOver) : program.Ends execution := by
  refine ends_of_finishes (fun some member => ?_) isOver rfl
  cases overflowed : execution.overflowed with
  | true =>
      have noWork : execution.work = [] := by simpa [Orderly, overflowed] using orderly
      rw [noWork] at member
      cases member
  | false =>
      have sound : program.Sound execution.interpreter execution.work := by
        simpa [Orderly, overflowed] using orderly
      obtain ⟨owner, shaped⟩ := shaped_of_stacked sound.stacked member
      exact finishes_of_shaped shaped

section Subsides

variable {now : Timestamp} (isOver : before.interpreter.IsOver)

include isOver

theorem subsides_proceed {α : Type} {around : Routine σ Listener α → Work σ Listener}
    {finish : α → Execution σ Listener} (code : Routine σ Listener α)
    (isWork : before.work = around code :: rest)
    (asks : ∀ request next, Work.Asks (around (.ask request next)) request
      fun answer => around (next answer))
    (finished : ∀ result, before.Subsides (finish result)) :
    before.Subsides (before.proceed program rest around finish code) := by
  cases code with
  | done result => exact finished result
  | read next => exact ⟨rfl, .refl _, .inl rfl⟩
  | write memory next => exact ⟨rfl, .refl _, .inl rfl⟩
  | ask request next =>
      rw [Execution.proceed, Execution.meet_of_over isOver]
      exact ⟨rfl, isOver.unmoved_afterRequest request,
        .inr ⟨request, (asks request next).requests isWork, rfl⟩⟩

theorem subsides_abort {step : RunningStep (Work σ Listener)} (error : InterpreterError) :
    before.Subsides (before.abort rest step error) := by
  unfold Execution.abort
  cases step.origin with
  | start resume => exact ⟨rfl, isOver.unmoved_abandonStart, .inl rfl⟩
  | signal fired drain => exact ⟨rfl, ⟨rfl, rfl, rfl, rfl, rfl⟩, .inl rfl⟩

theorem subsides_stepNext {step : RunningStep (Work σ Listener)} :
    before.Subsides (before.stepNext program now rest step) := by
  unfold Execution.stepNext
  split
  · simp only [Execution.finish, isOver.commit_eq]
    exact ⟨rfl, .refl _, .inl rfl⟩
  · dsimp only
    split <;> exact ⟨rfl, .refl _, .inl rfl⟩

theorem subsides_drainNext {drain : Drain (Work σ Listener)} :
    before.Subsides (before.drainNext program rest drain) := by
  cases isQueue : before.interpreter.queue with
  | nil =>
      simp only [Execution.drainNext, isQueue]
      exact ⟨rfl, ⟨rfl, rfl, rfl, rfl, rfl⟩, .inl rfl⟩
  | cons signal queue =>
      rw [drainNext_of_over isOver isQueue]
      exact ⟨rfl, ⟨rfl, rfl, rfl, rfl, rfl⟩, .inl rfl⟩

/-- A machine that is over never moves again, nor does it look at the clock. -/
theorem subsides_of_over (steps : before.step? program now = some after) :
    before.Subsides after := by
  have same : ∀ work, before.Subsides { before with work } :=
    fun work => ⟨rfl, .refl _, .inl rfl⟩
  unfold Execution.step? at steps
  split at steps
  · cases steps
  · next code rest isWork =>
    obtain rfl := Option.some.inj steps
    exact subsides_proceed isOver code isWork .client fun _ => same _
  · next code rest isWork =>
    obtain rfl := Option.some.inj steps
    exact subsides_proceed isOver code isWork .listening fun _ => same _
  · next step call code rest isWork =>
    obtain rfl := Option.some.inj steps
    refine subsides_proceed isOver code isWork (.acting step call) fun outcome => ?_
    cases outcome with
    | ok effect => exact same _
    | error reason => exact subsides_abort isOver _
  · obtain rfl := Option.some.inj steps
    exact subsides_stepNext isOver
  · obtain rfl := Option.some.inj steps
    exact same _
  · obtain rfl := Option.some.inj steps
    exact same _
  · obtain rfl := Option.some.inj steps
    exact subsides_drainNext isOver
  · obtain rfl := Option.some.inj steps
    simp only [Execution.advanceNext, isOver.isRunning_eq]
    exact ⟨rfl, ⟨rfl, rfl, rfl, rfl, rfl⟩, .inl rfl⟩

end Subsides

/-- The clock of a machine that is over is within its range. -/
theorem Reachable.inRange_of_over (reachable : program.Reachable execution)
    (isOver : execution.interpreter.IsOver) : execution.overflowed = false := by
  obtain ⟨interpreter, memory, code, begins, steps⟩ := reachable
  obtain ⟨chronicle, run⟩ := exists_runsTo steps
  have situated : program.Situated .outside (.ofClient interpreter memory code) :=
    situated_ofClient begins
  cases run with
  | refl => rfl
  | tail earlier step =>
      obtain ⟨phase, isSituated⟩ := earlier.situated_before situated step
      rcases isSituated.moves step with ⟨inRange, _⟩ | ⟨overflowed, _, timers, same⟩
      · exact inRange
      · -- a step that leaves the range changes nothing but timers
        rw [same] at isOver
        have inRange := (subsides_of_over isOver step).sameRange.trans isSituated.inRange
        cases inRange.symm.trans overflowed

section Move

variable {now : Timestamp} {phase next : Phase σ Listener} {i j : Interpreter Listener}
variable {happenings : Chronicle Listener}

/-- A step in progress goes on, but none begins any more. -/
theorem Move.continues (move : program.Move now phase i happenings next j) (isOver : i.IsOver)
    {step : RunningStep (Work σ Listener)} (isStep : next = .step step) :
    ∃ earlier, phase = .step earlier ∧ step.origin = earlier.origin ∧
      step.event = earlier.event ∧ step.plan = earlier.plan := by
  cases move with
  | act _ sameOrigin sameEvent samePlan =>
      cases isStep
      exact ⟨_, rfl, sameOrigin, sameEvent, samePlan⟩
  | begin unstarted => exact absurd unstarted isOver.started
  | stop =>
      rw [isOver.stop_eq] at isStep
      exact ⟨step, isStep, rfl, rfl, rfl⟩
  | take _ isRunning => cases isOver.isRunning_eq.symm.trans isRunning
  | release => cases putOff : i.release.2 <;> simp [Phase.bidding, putOff] at isStep
  | abandon => cases putOff : i.abandonStart.2 <;> simp [Phase.bidding, putOff] at isStep
  | quiet | enter | subscribe | unsubscribe | settle => exact ⟨step, isStep, rfl, rfl, rfl⟩
  | _ => cases isStep

end Move

/-- A run goes on from a machine that is over within the range of the clock, and without
changing the machine. -/
theorem RunsTo.unmoved (run : program.RunsTo before chronicle after)
    (isOver : before.interpreter.IsOver) :
    after.overflowed = before.overflowed ∧ before.interpreter.Unmoved after.interpreter := by
  induction run with
  | refl => exact ⟨rfl, .refl _⟩
  | tail run step ih =>
      obtain ⟨sameRange, unmoved⟩ := ih
      have subsides := subsides_of_over (unmoved.isOver isOver) step
      exact ⟨subsides.sameRange.trans sameRange, unmoved.trans subsides.unmoved⟩

theorem RunsTo.situated_of_over {phase : Phase σ Listener}
    (run : program.RunsTo before chronicle after) (situated : program.Situated phase before)
    (isOver : before.interpreter.IsOver) :
    ∃ current : Phase σ Listener, program.Situated current after := by
  rcases run.situated situated with ⟨_, isCurrent⟩ | ⟨overflowed, _⟩
  · exact isCurrent
  · have inRange := (run.unmoved isOver).1.trans situated.inRange
    cases inRange.symm.trans overflowed

/-- Whatever happens to a machine that is over is a move. -/
theorem RunsTo.advance_of_over {phase : Phase σ Listener} {now : Timestamp}
    (run : program.RunsTo before chronicle execution) (situated : program.Situated phase before)
    (isOver : before.interpreter.IsOver) (steps : execution.step? program now = some after) :
    execution.interpreter.IsOver ∧ ∃ current next : Phase σ Listener,
      program.Situated current execution ∧ program.Situated next after ∧
      program.Move now current execution.interpreter (program.happenings now execution) next
        after.interpreter := by
  have stillOver := (run.unmoved isOver).2.isOver isOver
  obtain ⟨current, isCurrent⟩ := run.situated_of_over situated isOver
  have inRange := (subsides_of_over stillOver steps).sameRange.trans isCurrent.inRange
  obtain ⟨next, isNext, move⟩ := isCurrent.advance steps inRange
  exact ⟨stillOver, current, next, isCurrent, isNext, move⟩

/-- Whatever step is in progress once a machine is over has been so before. -/
theorem RunsTo.continues {phase : Phase σ Listener} (run : program.RunsTo before chronicle after)
    (situated : program.Situated phase before) (isOver : before.interpreter.IsOver)
    {step : RunningStep (Work σ Listener)} (performs : after.Performs step) :
    ∃ earlier, before.Performs earlier ∧ step.origin = earlier.origin ∧
      step.event = earlier.event ∧ step.plan = earlier.plan := by
  induction run generalizing step with
  | refl => exact ⟨step, performs, rfl, rfl, rfl⟩
  | tail run steps ih =>
      obtain ⟨stillOver, _, _, isCurrent, isNext, move⟩ :=
        run.advance_of_over situated isOver steps
      obtain ⟨middle, rfl, sameOrigin, sameEvent, samePlan⟩ :=
        move.continues stillOver (isNext.arranged.performs_iff.1 performs)
      obtain ⟨earlier, isEarlier, origin, event, plan⟩ :=
        ih (isCurrent.arranged.performs_iff.2 rfl)
      exact ⟨earlier, isEarlier, sameOrigin.trans origin, sameEvent.trans event,
        samePlan.trans plan⟩

/-- What holds at every later point once a machine is over. Nothing of the machine has
changed, and it awaits no deadline. Whoever makes a request is refused, and a signal that still
waits is passed over. No step goes on but the one that was in progress. And the work that is
left runs out, after which no signal is left either. -/
structure AtRest (program : Program σ Listener) (before after : Execution σ Listener) : Prop where
  unmoved : before.interpreter.Unmoved after.interpreter
  noDeadline : after.interpreter.nextDeadline? = none
  refuses : ∀ {asking request resume rest}, Work.Asks asking request resume →
    after.work = asking :: rest →
    program.Surely after { after with
      interpreter := after.interpreter.afterRequest request
      work := resume (after.interpreter.lastAnswer request) :: rest }
  passesOver : ∀ {drain rest signal queue}, after.work = .draining drain :: rest →
    after.interpreter.queue = signal :: queue →
    program.Surely after { after with
      interpreter := { after.interpreter with queue }
      work := .draining (drain.note (.ok .rejected)) :: rest }
  continues : ∀ {step}, after.Performs step → ∃ earlier, before.Performs earlier ∧
    step.origin = earlier.origin ∧ step.event = earlier.event ∧ step.plan = earlier.plan
  ends : ∃ last, Relation.ReflTransGen program.Surely after last ∧ last.work = [] ∧
    last.interpreter.queue = []

/-- Nothing waits where there is no work. -/
theorem Situated.queue_eq_nil {phase : Phase σ Listener}
    (situated : program.Situated phase execution) (noWork : execution.work = []) :
    execution.interpreter.queue = [] := by
  have arranged := situated.arranged
  rw [noWork] at arranged
  cases arranged
  exact (situated.settled.tidy.idle situated.fits.busy).1

/-- A machine that is done or stopped is so for good, whatever is requested of it and by
whomever. -/
theorem over_for_good (reachable : program.Reachable before)
    (isOver : before.interpreter.IsOver) (run : program.RunsTo before chronicle after) :
    program.AtRest before after := by
  have inRange := reachable.inRange_of_over isOver
  obtain ⟨_, situated, _⟩ := reachable.booked inRange
  obtain ⟨sameRange, unmoved⟩ := run.unmoved isOver
  have stillOver := unmoved.isOver isOver
  have reachableToo := reachable.trans run.steps
  obtain ⟨_, stillSituated, booked⟩ := reachableToo.booked (sameRange.trans inRange)
  refine ⟨unmoved, ?_, fun asks isWork now => ?_, fun isWork isQueue now => ?_,
    run.continues situated isOver, ?_⟩
  · have disarmed := booked.halted (.inl stillOver.not_running)
    simp [Interpreter.nextDeadline?, Timers.nextDeadline?, disarmed, Timers.first?]
  · rw [asks.step_eq isWork, Execution.meet_of_over stillOver]
  · simp only [Execution.step?, isWork, drainNext_of_over stillOver isQueue]
  · obtain ⟨last, later, noWork⟩ := reachableToo.orderly.ends stillOver
    have steps : Relation.ReflTransGen program.Step after last :=
      later.lift id fun _ _ surely => ⟨default, surely default⟩
    obtain ⟨_, onward⟩ := exists_runsTo steps
    obtain ⟨_, isLast⟩ := onward.situated_of_over stillSituated stillOver
    exact ⟨last, later, noWork, isLast.queue_eq_nil noWork⟩

/-- A booth whose greeting raises events, in which nobody can pay. Some who listen to it send
nothing but a stop. -/
def booth (greeting : List String) : Program Unit Bool where
  definition := MachineSpec.booth.resolved
  registry.actions :=
    [("greet", fun call => .done (.ok ⟨call.context, greeting⟩)),
      ("dial", fun call => .done (.ok ⟨call.context, ["answer"]⟩)),
      ("pay", fun _ => .done (.error "no coins"))]
  listen stops _ := if stops then Routine.request .stop else .done ()

theorem begins_booth (greeting : List String) :
    (booth greeting).Begins (.fresh MachineSpec.booth.resolved none) := .inl ⟨none, by cbv⟩

/-- Someone starts the booth, and then calls. -/
def calling : Execution Unit Bool :=
  .ofClient (.fresh MachineSpec.booth.resolved none) () do
    let _ ← Routine.request .start
    let _ ← Routine.request (.send "call")

/-- The booth can be built. One that closes on greeting stays closed: the call that still waits
is passed over. -/
theorem closed_booth_at_rest :
    MachineSpec.booth.build = .ok (booth ["close", "call"]).definition ∧
      (calling.run (booth ["close", "call"]) default 7).interpreter.queue = [.event "call"] ∧
      (booth ["close", "call"]).AtRest (calling.run (booth ["close", "call"]) default 7)
        ((calling.run (booth ["close", "call"]) default 7).run (booth ["close", "call"])
          default 5) := by
  have start : (booth ["close", "call"]).RunsTo calling _
      (calling.run (booth ["close", "call"]) default 7) := runsTo_run default 7 calling
  have isDone : (calling.run (booth ["close", "call"]) default 7).interpreter.lifecycle =
      .done := by cbv
  refine ⟨MachineSpec.booth_built, by cbv, ?_⟩
  exact over_for_good ⟨_, _, _, begins_booth _, start.steps⟩ (.inl isDone) (runsTo_run default 5 _)

end Program

end Statechart
