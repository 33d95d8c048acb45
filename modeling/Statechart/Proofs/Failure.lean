import Statechart.Proofs.Chronicle

/-!
# Failing steps

What the actions of a step come to when they make no requests, in one go, and that the
small steps of the machine do the same. Until the last action has run nothing but the
step itself and the shared memory changes; so a step of which an action fails leaves
everything as it was, except that the timer that triggered it may fire again.
-/

namespace Statechart

variable {σ Listener : Type}

namespace Routine

variable {α : Type}

/-- The result of a routine that makes no request, with the memory that it leaves. -/
def outcome? : Routine σ Listener α → σ → Option (α × σ)
  | .done result, memory => some (result, memory)
  | .read next, memory => (next memory).outcome? memory
  | .write memory next, _ => next.outcome? memory
  | .ask _ _, _ => none

/-- A routine that makes no request, whatever it finds in the memory. -/
def Silent : Routine σ Listener α → Prop
  | .done _ => True
  | .read next => ∀ memory, (next memory).Silent
  | .write _ next => next.Silent
  | .ask _ _ => False

theorem Silent.exists_outcome {code : Routine σ Listener α} (silent : code.Silent) (memory : σ) :
    ∃ outcome, code.outcome? memory = some outcome := by
  induction code generalizing memory with
  | done result => exact ⟨_, rfl⟩
  | read next ih => exact ih memory (silent memory) memory
  | write written next ih => exact ih silent written
  | ask request next => exact silent.elim

end Routine

namespace Program

/-- What a list of actions comes to when none of them makes a request: the context and the
raised events that they leave, or the first failure; and the memory. -/
def perform? (program : Program σ Listener) (event : String) :
    List Invocation → Context → List String → σ →
      Option (Except InterpreterError (Context × List String) × σ)
  | [], context, raised, memory => some (.ok (context, raised), memory)
  | call :: pending, context, raised, memory =>
    let state := (program.definition.node call.state).id
    match program.registry.action? call.action with
    | none => program.perform? event pending context raised memory
    | some action =>
      match (action ⟨context, event, state⟩).outcome? memory with
      | none => none
      | some (.ok effect, memory) =>
        program.perform? event pending effect.context (raised ++ effect.raised) memory
      | some (.error reason, memory) =>
        some (.error (.actionFailed call.action state event reason), memory)

/-- Actions that touch nothing but the context they are given and the shared memory. -/
def Silent (program : Program σ Listener) (calls : List Invocation) : Prop :=
  ∀ call ∈ calls, ∀ action, program.registry.action? call.action = some action →
    ∀ told, (action told).Silent

theorem Silent.exists_perform {program : Program σ Listener} {event : String}
    {calls : List Invocation} (silent : program.Silent calls) (context : Context)
    (raised : List String) (memory : σ) :
    ∃ outcome, program.perform? event calls context raised memory = some outcome := by
  induction calls generalizing context raised memory with
  | nil => exact ⟨_, rfl⟩
  | cons call pending ih =>
      have later : program.Silent pending := fun call member => silent call (.tail _ member)
      simp only [perform?]
      split
      · exact ih later _ _ _
      · next action isAction =>
        obtain ⟨outcome, isOutcome⟩ :=
          (silent call (.head _) action isAction ⟨context, event, _⟩).exists_outcome memory
        rw [isOutcome]
        obtain ⟨effect | reason, written⟩ := outcome
        · exact ⟨_, rfl⟩
        · exact ih later _ _ _

/-- A step is in progress on top of other work, and the interpreter is as given. -/
def InStep (interpreter : Interpreter Listener) (rest : List (Work σ Listener))
    (execution : Execution σ Listener) : Prop :=
  execution.interpreter = interpreter ∧ ∃ step, execution.work = .stepping step :: rest ∨
    ∃ call code, execution.work = .acting step call code :: rest

/-- Small steps from one execution to another, all of them within a step. -/
def Quietly (program : Program σ Listener) (interpreter : Interpreter Listener)
    (rest : List (Work σ Listener)) : Execution σ Listener → Execution σ Listener → Prop :=
  Relation.ReflTransGen fun before after =>
    InStep interpreter rest before ∧ program.Surely before after

section Within

variable {ι : Type} {program : Program σ Listener} {memory middle left : σ}
variable {work next : ι → Work σ Listener} {origin : ι → Origin (Work σ Listener)}
variable {event : String} {plan : Plan}
variable {outcome : Except InterpreterError (Context × List String)}

/-- A small step within a step, whatever that stands on and whatever is to go on after it.
Nothing happens in it, and nothing changes but the memory and what the step has left to do. -/
structure Within (program : Program σ Listener) (before after : σ × (ι → Work σ Listener)) :
    Prop where
  inStep : ∀ k, ∃ step, before.2 k = .stepping step ∨
    ∃ call code, before.2 k = .acting step call code
  quiet : ∀ (execution : Execution σ Listener) rest k now,
    program.happenings now { execution with memory := before.1, work := before.2 k :: rest } = []
  surely : ∀ (execution : Execution σ Listener) rest k,
    program.Surely { execution with memory := before.1, work := before.2 k :: rest }
      { execution with memory := after.1, work := after.2 k :: rest }

/-- Small steps within a step. -/
def Toils (program : Program σ Listener) :
    σ × (ι → Work σ Listener) → σ × (ι → Work σ Listener) → Prop :=
  Relation.ReflTransGen program.Within

/-- A step comes to its end: all its actions have run, or one has failed. -/
def Concludes (program : Program σ Listener) (origin : ι → Origin (Work σ Listener))
    (event : String) (plan : Plan) (memory : σ) (work : ι → Work σ Listener) (left : σ) :
    Except InterpreterError (Context × List String) → Prop
  | .ok (context, raised) =>
    program.Toils (memory, work)
      (left, fun k => .stepping ⟨origin k, event, plan, [], context, raised⟩)
  | .error error =>
    ∃ (call : Invocation) (reason : String) (step : ι → RunningStep (Work σ Listener)),
      error = .actionFailed call.action (program.definition.node call.state).id event reason ∧
      (∀ k, (step k).origin = origin k ∧ (step k).event = event) ∧
      program.Toils (memory, work) (left, fun k => .acting (step k) call (.done (.error reason)))

theorem Concludes.before (toils : program.Toils (memory, work) (middle, next))
    (concludes : program.Concludes origin event plan middle next left outcome) :
    program.Concludes origin event plan memory work left outcome := by
  cases outcome with
  | ok effect => exact toils.trans concludes
  | error error =>
      obtain ⟨call, reason, step, isError, sameOrigin, onward⟩ := concludes
      exact ⟨call, reason, step, isError, sameOrigin, toils.trans onward⟩

/-- The machine runs a routine that makes no request to its result. -/
theorem toils_outcome (step : ι → RunningStep (Work σ Listener)) (call : Invocation)
    {code : Routine σ Listener (Except String ActionEffect)} {result : Except String ActionEffect}
    (isOutcome : code.outcome? memory = some (result, left)) :
    program.Toils (memory, fun k => .acting (step k) call code)
      (left, fun k => .acting (step k) call (.done result)) := by
  induction code generalizing memory with
  | done result =>
      cases isOutcome
      exact .refl
  | read next ih =>
      have reads : program.Within (memory, fun k => .acting (step k) call (.read next))
          (memory, fun k => .acting (step k) call (next memory)) :=
        ⟨fun k => ⟨step k, .inr ⟨call, _, rfl⟩⟩, fun _ _ _ _ => rfl, fun _ _ _ _ => rfl⟩
      exact .head reads (ih memory isOutcome)
  | write written next ih =>
      have writes : program.Within (memory, fun k => .acting (step k) call (.write written next))
          (written, fun k => .acting (step k) call next) :=
        ⟨fun k => ⟨step k, .inr ⟨call, _, rfl⟩⟩, fun _ _ _ _ => rfl, fun _ _ _ _ => rfl⟩
      exact .head writes (ih isOutcome)
  | ask request next => cases isOutcome

/-- The machine runs the actions of a step up to the first that fails, or all of them. -/
theorem concludes_of_perform {pending : List Invocation} {context : Context}
    {raised : List String}
    (performs : program.perform? event pending context raised memory = some (outcome, left)) :
    program.Concludes origin event plan memory
      (fun k => .stepping ⟨origin k, event, plan, pending, context, raised⟩) left outcome := by
  -- actions before the one that fails change the working copies and the memory only
  induction pending generalizing context raised memory with
  | nil =>
      obtain ⟨rfl, rfl⟩ := Prod.mk.inj (Option.some.inj performs)
      exact .refl
  | cons call pending ih =>
      simp only [perform?] at performs
      let step : ι → RunningStep (Work σ Listener) :=
        fun k => ⟨origin k, event, plan, pending, context, raised⟩
      cases isAction : program.registry.action? call.action with
      | none =>
          simp only [isAction] at performs
          have skips : program.Within
              (memory, fun k => .stepping { step k with pending := call :: pending })
              (memory, fun k => .stepping (step k)) :=
            ⟨fun k => ⟨_, .inl rfl⟩, fun _ _ _ _ => rfl, fun execution rest k now => by
              simp [Execution.step?, Execution.stepNext, isAction, step]⟩
          exact (ih performs).before (.single skips)
      | some action =>
          simp only [isAction] at performs
          have begins : program.Within
              (memory, fun k => .stepping { step k with pending := call :: pending })
              (memory, fun k => .acting (step k) call
                (action ⟨context, event, (program.definition.node call.state).id⟩)) :=
            ⟨fun k => ⟨_, .inl rfl⟩, fun _ _ _ _ => rfl, fun execution rest k now => by
              simp [Execution.step?, Execution.stepNext, isAction, step]⟩
          split at performs
          · cases performs
          · next effect written isOutcome =>
            have ends : program.Within
                (written, fun k => .acting (step k) call (.done (.ok effect)))
                (written, fun k => .stepping ⟨origin k, event, plan, pending, effect.context,
                  raised ++ effect.raised⟩) :=
              ⟨fun k => ⟨step k, .inr ⟨call, _, rfl⟩⟩, fun _ _ _ _ => rfl, fun _ _ _ _ => rfl⟩
            exact (ih performs).before (.head begins ((toils_outcome step call isOutcome).tail ends))
          · next reason written isOutcome =>
            obtain ⟨rfl, rfl⟩ := Prod.mk.inj (Option.some.inj performs)
            exact ⟨call, reason, step, rfl, fun k => ⟨rfl, rfl⟩,
              .head begins (toils_outcome step call isOutcome)⟩

end Within

variable {program : Program σ Listener} {execution : Execution σ Listener}
variable {rest : List (Work σ Listener)} {step : RunningStep (Work σ Listener)}

theorem Toils.quietly {before after : σ × (Unit → Work σ Listener)}
    (toils : program.Toils before after) (execution : Execution σ Listener)
    (rest : List (Work σ Listener)) :
    program.Quietly execution.interpreter rest
      { execution with memory := before.1, work := before.2 () :: rest }
      { execution with memory := after.1, work := after.2 () :: rest } := by
  let on : σ × (Unit → Work σ Listener) → Execution σ Listener :=
    fun stint => { execution with memory := stint.1, work := stint.2 () :: rest }
  refine toils.lift on fun before after within => ⟨⟨rfl, ?_⟩, within.surely execution rest ()⟩
  simpa [on] using within.inStep ()

/-- The machine runs the actions of a step up to the first that fails, and aborts it. -/
theorem quietly_abort (execution : Execution σ Listener) (rest : List (Work σ Listener))
    (step : RunningStep (Work σ Listener)) {memory : σ} {error : InterpreterError}
    (failed : program.perform? step.event step.pending step.context step.raised execution.memory =
      some (.error error, memory)) :
    program.Quietly execution.interpreter rest
      { execution with work := .stepping step :: rest }
      (Execution.abort { execution with memory } rest step error) := by
  have concludes : program.Concludes (fun _ : Unit => step.origin) step.event step.plan
      execution.memory (fun _ => .stepping step) memory (.error error) :=
    concludes_of_perform failed
  obtain ⟨call, reason, last, rfl, sameOrigin, toils⟩ := concludes
  obtain ⟨isOrigin, sameEvent⟩ := sameOrigin ()
  refine (toils.quietly execution rest).tail ⟨⟨rfl, last (), .inr ⟨call, _, rfl⟩⟩, fun now => ?_⟩
  simp [Execution.step?, Execution.proceed, Execution.actionDone, Execution.abort, isOrigin,
    sameEvent]

/-- A start whose initial entry fails gives the interpreter back as it was. -/
theorem abandonStart_begun {interpreter : Interpreter Listener}
    (tidy : interpreter.Tidy program.definition) (unstarted : interpreter.lifecycle = .notStarted) :
    { interpreter with lifecycle := .running, busy := true }.abandonStart =
      (interpreter, none) := by
  have isIdle := (tidy.unstarted unstarted).1
  obtain ⟨noQueue, noStop⟩ := tidy.idle isIdle
  cases interpreter
  simp_all [Interpreter.abandonStart, Interpreter.release]

/-- What is left of the timers once a step has failed: they are as they were, except that
the one that sent the signal, if one did, may fire again. -/
def timersAfterFailure (signal : Signal) (timers : Timers) : Timers :=
  match signal with
  | .event _ => timers
  | .timer key generation =>
    { timers with
      armed := timers.armed.map fun timer =>
        if timer.key = key ∧ timer.generation = generation then { timer with fired := false }
        else timer }

/-- The timer that sent the signal of a step is armed still, and may fire again if it fails. -/
theorem exists_rearmed {interpreter : Interpreter Listener} {drain : Drain (Work σ Listener)}
    {key : TimerKey} {generation : Nat}
    (found : Execution.stepOf? program interpreter drain (.timer key generation) = some step) :
    ∃ timer ∈ (timersAfterFailure (.timer key generation) interpreter.timers).armed,
      timer.key = key ∧ timer.generation = generation ∧ timer.fired = false := by
  simp only [Execution.stepOf?] at found
  split at found
  · next current =>
    obtain ⟨timer, isArmed, sameKey, sameGeneration⟩ := Timers.exists_of_isCurrent current
    refine ⟨{ timer with fired := false }, List.mem_map.2 ⟨timer, isArmed, ?_⟩, sameKey,
      sameGeneration, rfl⟩
    rw [if_pos ⟨sameKey, sameGeneration⟩]
  · cases found

/-- When an action of the step of a signal fails, the pass over the queue goes on with
everything as it was before that signal, but a timer that sent it may fire again; when one
of the initial entry fails, the interpreter is as it was before the start. On the way
nothing else changes but the shared memory, and nothing but the step itself is in
progress. -/
theorem failure_leaves_no_trace (program : Program σ Listener) :
    (∀ (before : Execution σ Listener) drain rest signal queue step error memory,
      before.work = .draining drain :: rest → before.interpreter.isRunning = true →
      before.interpreter.queue = signal :: queue →
      Execution.stepOf? program { before.interpreter with queue } drain signal = some step →
      program.perform? step.event step.plan.invocations before.interpreter.context []
        before.memory = some (.error error, memory) →
      ∃ begun, program.Surely before begun ∧
        program.Quietly { before.interpreter with queue } rest begun
          { before with
            interpreter :=
              { before.interpreter with
                queue, timers := timersAfterFailure signal before.interpreter.timers }
            memory
            work := .draining (drain.note (.error error)) :: rest } ∧
        ∀ key generation, signal = .timer key generation →
          ∃ timer ∈ (timersAfterFailure signal before.interpreter.timers).armed,
            timer.key = key ∧ timer.generation = generation ∧ timer.fired = false) ∧
    (∀ (before : Execution σ Listener) asking rest error memory
        (resume : Except InterpreterError Unit → Work σ Listener),
      program.Reachable before → before.work = asking :: rest → asking.Asks .start resume →
      before.interpreter.lifecycle = .notStarted →
      program.perform? initEvent program.definition.initialPlan.invocations
        program.definition.context [] before.memory = some (.error error, memory) →
      ∃ begun, program.Surely before begun ∧
        program.Quietly { before.interpreter with lifecycle := .running, busy := true } rest begun
          { before with memory, work := resume (.error error) :: rest }) := by
  constructor
  · intro before drain rest signal queue step error memory isWork isRunning isQueue found failed
    have begun := begun_of_stepOf? found
    refine ⟨{ before with
      interpreter := { before.interpreter with queue }, work := .stepping step :: rest },
      ?_, ?_, ?_⟩
    · intro now
      have stillRunning : Interpreter.isRunning { before.interpreter with queue } = true :=
        isRunning
      simp [Execution.step?, isWork, Execution.drainNext, isQueue, stillRunning, found]
    · have quietly := quietly_abort
        { before with interpreter := { before.interpreter with queue } } rest step
        (by rw [begun]; exact failed)
      rw [begun] at quietly ⊢
      cases signal with
      | event name => exact quietly
      | timer key generation => exact quietly
    · rintro key generation rfl
      exact exists_rearmed found
  · intro before asking rest error memory resume reachable isWork asks unstarted failed
    obtain ⟨inRange, sound⟩ := reachable.orderly.sound isWork
    have givenBack := abandonStart_begun sound.tidy unstarted
    let step : RunningStep (Work σ Listener) :=
      .begin (.start resume) initEvent program.definition.initialPlan program.definition.context
    refine ⟨{ before with
      interpreter := { before.interpreter with lifecycle := .running, busy := true }
      work := .stepping step :: rest }, ?_, ?_⟩
    · intro now
      rw [asks.step_eq isWork]
      simp [Execution.meet, unstarted, step]
    · have quietly := quietly_abort
        { before with
          interpreter := { before.interpreter with lifecycle := .running, busy := true } }
        rest step failed
      simpa [Execution.abort, step, RunningStep.begin, givenBack, Execution.noticeWork]
        using quietly

/-- A studio that is started but off, about to process its power switch. -/
def powering : Execution Unit Empty where
  interpreter :=
    { (.fresh MachineSpec.studio.resolved none : Interpreter Empty) with
      lifecycle := .running, busy := true, queue := [.event "power"] }
  memory := ()
  work := [.draining { resume := fun _ => .client (.done ()) }]

/-- A studio that is about to be started. -/
def starting : Execution Unit Empty :=
  .ofClient (.fresh MachineSpec.studio.resolved none) () (.ask .start fun _ => .done ())

theorem studio_fails_without_trace :
    (∃ begun after, (studio (.ok ()) (.error "cold")).Surely powering begun ∧
      (studio (.ok ()) (.error "cold")).Quietly { powering.interpreter with queue := [] } []
        begun after ∧ after.interpreter = { powering.interpreter with queue := [] }) ∧
    ∃ begun after, (studio (.error "dark") (.ok ())).Surely starting begun ∧
      (studio (.error "dark") (.ok ())).Quietly
        { starting.interpreter with lifecycle := .running, busy := true } [] begun after ∧
      after.interpreter = starting.interpreter := by
  constructor
  · let program := studio (.ok ()) (.error "cold")
    obtain ⟨begun, first, quietly, _⟩ := (failure_leaves_no_trace program).1 powering
      { resume := fun _ => .client (.done ()) } [] (.event "power") []
      (.begin (.signal none { resume := fun _ => .client (.done ()) }) "power"
        (program.definition.plan powering.interpreter.configuration
          [⟨"power", 1, some 2, none, []⟩]) powering.interpreter.context)
      (.actionFailed "warm" "studio.on" "power" "cold") () rfl rfl rfl (by cbv) (by cbv)
    exact ⟨begun, _, first, quietly, rfl⟩
  · let program := studio (.error "dark") (.ok ())
    obtain ⟨begun, first, quietly⟩ := (failure_leaves_no_trace program).2 starting
      (.client (.ask .start fun _ => .done ())) [] (.actionFailed "boot" "studio" "init" "dark") ()
      (fun _ => .client (.done ())) ⟨_, _, _, begins_studio _ _, .refl⟩ rfl (.client .start _) rfl
      (by cbv)
    exact ⟨begun, _, first, quietly, rfl⟩

end Program

end Statechart
