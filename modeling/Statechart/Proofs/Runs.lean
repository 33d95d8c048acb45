import Statechart.Checkpoint
import Statechart.Proofs.Commit
import Statechart.Proofs.Selection
import Statechart.Proofs.Stack
import Mathlib

/-!
# Runs

What holds between any two small steps of any run, whatever the actions, the listeners
and the code that drives the machine request: the interpreter is tidy, one piece of work
owns it while it is busy, and a step in progress is the one that its signal called for
in the configuration and context that are still committed.
-/

namespace Statechart

variable {σ Listener : Type}

/-- The timer that sent a signal, if one did. -/
def Signal.fired : Signal → Option (TimerKey × Nat)
  | .event _ => none
  | .timer key generation => some (key, generation)

namespace Program

variable (program : Program σ Listener)

/-- A small step at some reading of the clock. -/
def Step (before after : Execution σ Listener) : Prop :=
  ∃ now, before.step? program now = some after

/-- A small step that does not depend on the reading of the clock. -/
def Surely (before after : Execution σ Listener) : Prop :=
  ∀ now, before.step? program now = some after

/-- The transitions that a signal takes: those of an event, or that of a timer. -/
def transitionsFor (configuration : Configuration) (context : Context)
    (fired : Option (TimerKey × Nat)) (event : String) : List Transition :=
  match fired with
  | none => program.definition.select program.registry.guard? configuration context event
  | some (key, _) => ((program.definition.delayed? key).map (·.transition)).toList

/-- A step in progress is the initial entry, or it takes the transitions of its signal. -/
def Planned (configuration : Configuration) (context : Context)
    (step : RunningStep (Work σ Listener)) : Prop :=
  match step.origin with
  | .start _ => step.plan = program.definition.initialPlan ∧
      configuration = program.definition.initialConfiguration
  | .signal fired _ =>
      step.plan = program.definition.plan configuration
        (program.transitionsFor configuration context fired step.event) ∧
      ∀ key generation, fired = some (key, generation) → key.state ∈ configuration

/-- The invariant of an interpreter with work on top of which nothing else waits. -/
structure Sound (interpreter : Interpreter Listener) (work : List (Work σ Listener)) : Prop where
  tidy : interpreter.Tidy program.definition
  stacked : Work.Stacked (program.Planned interpreter.configuration interpreter.context)
    interpreter.busy work

/-- The invariant while the work on top is at its turn. -/
structure Ready (interpreter : Interpreter Listener) (owner : Bool)
    (rest : List (Work σ Listener)) : Prop where
  tidy : interpreter.Tidy program.definition
  room : Work.Room (program.Planned interpreter.configuration interpreter.context) owner
    interpreter.busy rest

/-- The invariant of a run. -/
def Orderly (execution : Execution σ Listener) : Prop :=
  if execution.overflowed then execution.work = []
  else program.Sound execution.interpreter execution.work

variable {program} {interpreter other : Interpreter Listener} {execution : Execution σ Listener}
variable {owner : Bool} {work : Work σ Listener} {rest : List (Work σ Listener)}
variable {step : RunningStep (Work σ Listener)} {drain : Drain (Work σ Listener)}

theorem Sound.orderly (sound : program.Sound execution.interpreter execution.work)
    (inRange : execution.overflowed = false) : program.Orderly execution := by
  simp [Orderly, inRange, sound]

/-- While there is work, an orderly execution is within the range of the clock. -/
theorem Orderly.sound (orderly : program.Orderly execution)
    (isWork : execution.work = work :: rest) :
    execution.overflowed = false ∧ program.Sound execution.interpreter (work :: rest) := by
  rw [Orderly, isWork] at orderly
  cases halted : execution.overflowed with
  | true => simp [halted] at orderly
  | false => exact ⟨rfl, by simpa [halted] using orderly⟩

theorem orderly_overflow : program.Orderly (execution.overflow interpreter) := by
  simp [Orderly, Execution.overflow]

theorem Sound.ready (sound : program.Sound interpreter (work :: rest)) :
    ∃ owner,
      Work.Shaped (program.Planned interpreter.configuration interpreter.context) owner work ∧
      program.Ready interpreter owner rest := by
  obtain ⟨owner, shaped, room⟩ := Work.stacked_cons_iff.1 sound.stacked
  exact ⟨owner, shaped, sound.tidy, room⟩

namespace Ready

variable (ready : program.Ready interpreter owner rest)

include ready

theorem push
    (shaped : Work.Shaped (program.Planned interpreter.configuration interpreter.context)
      owner work) :
    program.Sound interpreter (work :: rest) :=
  ⟨ready.tidy, ready.room.push shaped⟩

/-- A change that neither commits nor takes the interpreter over leaves room for the same
work. -/
theorem change (tidy : other.Tidy program.definition) (sameBusy : other.busy = interpreter.busy)
    (sameConfiguration : other.configuration = interpreter.configuration)
    (sameContext : other.context = interpreter.context) : program.Ready other owner rest := by
  refine ⟨tidy, ?_⟩
  rw [sameBusy, sameConfiguration, sameContext]
  exact ready.room

theorem withTimers (timers : Timers)
    (same : ∀ timer ∈ timers.armed, ∃ before ∈ interpreter.timers.armed, before.key = timer.key) :
    program.Ready { interpreter with timers } owner rest :=
  ready.change (ready.tidy.withTimers timers same) rfl rfl rfl

/-- An interpreter that is not busy is taken over. -/
theorem takeOver (isIdle : interpreter.busy = false)
    (tidy : other.Tidy program.definition) (isBusy : other.busy = true)
    (sameConfiguration : other.configuration = interpreter.configuration)
    (sameContext : other.context = interpreter.context) :
    owner = false ∧ program.Ready other true rest := by
  have room := ready.room
  rw [isIdle] at room
  obtain ⟨notOwner, below⟩ := room.idle
  refine ⟨notOwner, tidy, isBusy, ?_⟩
  rw [sameConfiguration, sameContext]
  exact below

end Ready

theorem Ready.isBusy (ready : program.Ready interpreter true rest) : interpreter.busy = true :=
  ready.room.owned.1

theorem Ready.isStarted (ready : program.Ready interpreter true rest) :
    interpreter.lifecycle ≠ .notStarted := by
  intro unstarted
  have isIdle := (ready.tidy.unstarted unstarted).1
  cases ready.isBusy.symm.trans isIdle

/-- The owner gives the interpreter up; what goes on instead of it may stand behind a
notice. -/
theorem Ready.giveUp (ready : program.Ready interpreter true rest)
    (tidy : other.Tidy program.definition) (isIdle : other.busy = false)
    (sameConfiguration : other.configuration = interpreter.configuration)
    (sameContext : other.context = interpreter.context)
    (notice : Option (List (Nat × Listener) × Snapshot))
    (shaped : Work.Shaped (program.Planned interpreter.configuration interpreter.context)
      false work) :
    program.Sound other (Execution.noticeWork notice ++ work :: rest) := by
  refine ⟨tidy, Work.Stacked.notice ?_ notice⟩
  rw [isIdle, sameConfiguration, sameContext]
  exact .inl ⟨shaped, ready.room.owned.2⟩

/-- Signals wait, or they are refused, or nothing stands in the way of a pass over the
queue. -/
theorem orderly_deliver {signal : Signal}
    {resume : Except InterpreterError Delivery → Work σ Listener}
    (inRange : execution.overflowed = false)
    (ready : program.Ready execution.interpreter owner rest)
    (shaped : ∀ result, Work.Shaped
      (program.Planned execution.interpreter.configuration execution.interpreter.context)
      owner (resume result)) :
    program.Orderly (execution.deliver signal resume rest) := by
  unfold Execution.deliver
  split
  · exact (ready.push (shaped _)).orderly inRange
  · next isRunning =>
    have started : execution.interpreter.lifecycle ≠ .notStarted := by
      intro unstarted
      simp [Interpreter.isRunning, unstarted] at isRunning
    have tidy := ready.tidy.withQueue (execution.interpreter.queue ++ [signal]) started
    dsimp only
    split
    · next isBusy =>
      have queued : program.Ready (execution.interpreter.enqueue signal) owner rest := by
        refine ready.change ?_ rfl rfl rfl
        rwa [← isBusy] at tidy
      exact (queued.push (shaped _)).orderly inRange
    · next notBusy =>
      have isIdle : execution.interpreter.busy = false := Bool.eq_false_iff.2 notBusy
      obtain ⟨rfl, taken⟩ := ready.takeOver isIdle tidy rfl rfl rfl
      exact (taken.push (.draining shaped)).orderly inRange

theorem planned_start {configuration : Configuration} {context initial : Context}
    {resume : Except InterpreterError Unit → Work σ Listener}
    (isInitial : configuration = program.definition.initialConfiguration) :
    program.Planned configuration context
      (.begin (.start resume) initEvent program.definition.initialPlan initial) :=
  ⟨rfl, isInitial⟩

/-- Every request keeps the invariant, whoever makes it. -/
theorem orderly_meet {request : Request Listener} {resume : request.Answer → Work σ Listener}
    (inRange : execution.overflowed = false)
    (ready : program.Ready execution.interpreter owner rest)
    (shaped : ∀ answer, Work.Shaped
      (program.Planned execution.interpreter.configuration execution.interpreter.context)
      owner (resume answer)) :
    program.Orderly (execution.meet program rest request resume) := by
  cases request with
  | start =>
      simp only [Execution.meet]
      split
      · exact (ready.push (shaped _)).orderly inRange
      · next unstarted =>
        have isUnstarted : execution.interpreter.lifecycle = .notStarted := by
          simpa using unstarted
        obtain ⟨isIdle, isInitial⟩ := ready.tidy.unstarted isUnstarted
        obtain ⟨rfl, taken⟩ := ready.takeOver isIdle ready.tidy.begin rfl rfl rfl
        refine (taken.push (.stepping (planned_start isInitial) ?_)).orderly inRange
        rintro work ⟨result, rfl⟩
        exact shaped result
  | send event => exact orderly_deliver inRange ready shaped
  | stop =>
      obtain ⟨sameBusy, sameConfiguration, sameContext, _⟩ := execution.interpreter.stop_spec
      have stopped := ready.change ready.tidy.stop sameBusy sameConfiguration sameContext
      have pushed : program.Sound execution.interpreter.stop.1 (resume () :: rest) := by
        apply stopped.push
        rw [sameConfiguration, sameContext]
        exact shaped ()
      exact Sound.orderly ⟨pushed.tidy, pushed.stacked.notice _⟩ inRange
  | advance span =>
      simp only [Execution.meet]
      split
      · exact (ready.push (shaped _)).orderly inRange
      · split
        · exact (ready.push (.advancing _ _ shaped)).orderly inRange
        · exact orderly_overflow
  | subscribe listener =>
      have changed := ready.change (ready.tidy.subscribe listener) rfl rfl rfl
      exact (changed.push (shaped _)).orderly inRange
  | unsubscribe number =>
      have changed := ready.change (ready.tidy.unsubscribe number) rfl rfl rfl
      exact (changed.push (shaped _)).orderly inRange
  | can event => exact (ready.push (shaped _)).orderly inRange
  | look => exact (ready.push (shaped _)).orderly inRange

theorem orderly_proceed {α : Type} {around : Routine σ Listener α → Work σ Listener}
    {finish : α → Execution σ Listener} {code : Routine σ Listener α}
    (inRange : execution.overflowed = false)
    (ready : program.Ready execution.interpreter owner rest)
    (shaped : ∀ code, Work.Shaped
      (program.Planned execution.interpreter.configuration execution.interpreter.context)
      owner (around code))
    (finished : ∀ result, program.Orderly (finish result)) :
    program.Orderly (execution.proceed program rest around finish code) := by
  cases code with
  | done result => exact finished result
  | read next => exact (ready.push (shaped _)).orderly inRange
  | write memory next => exact (ready.push (shaped _)).orderly inRange
  | ask request next => exact orderly_meet inRange ready fun answer => shaped (next answer)

/-- A signal takes its step from the committed context, and notes which timer sent it. -/
theorem begun_of_stepOf? {signal : Signal}
    (found : Execution.stepOf? program interpreter drain signal = some step) :
    step = .begin (.signal signal.fired drain) step.event step.plan interpreter.context := by
  simp only [Execution.stepOf?] at found
  split at found
  · split at found
    · cases found
    · obtain rfl := Option.some.inj found
      rfl
  · split at found
    · obtain ⟨delayed, _, rfl⟩ := Option.map_eq_some_iff.1 found
      rfl
    · cases found

/-- The step of a signal is planned in the committed configuration and context. -/
theorem planned_stepOf? {signal : Signal} (tidy : interpreter.Tidy program.definition)
    (found : Execution.stepOf? program interpreter drain signal = some step) :
    program.Planned interpreter.configuration interpreter.context step := by
  simp only [Execution.stepOf?] at found
  split at found
  · next name =>
    split at found
    · cases found
    · obtain rfl := Option.some.inj found
      exact ⟨rfl, fun key generation isFired => by cases isFired⟩
  · next key generation =>
    split at found
    · next current =>
      obtain ⟨delayed, isDelayed, rfl⟩ := Option.map_eq_some_iff.1 found
      refine ⟨?_, fun _ _ isFired => ?_⟩
      · simp [RunningStep.begin, transitionsFor, isDelayed]
      · cases isFired
        obtain ⟨timer, isArmed, sameKey, _⟩ := Timers.exists_of_isCurrent current
        exact sameKey ▸ tidy.armed timer isArmed
    · cases found

theorem orderly_drainNext (inRange : execution.overflowed = false)
    (ready : program.Ready execution.interpreter true rest)
    (after : ∀ result, Work.Shaped
      (program.Planned execution.interpreter.configuration execution.interpreter.context)
      false (drain.resume result)) :
    program.Orderly (execution.drainNext program rest drain) := by
  unfold Execution.drainNext
  split
  · next isEmpty =>
    have released := ready.tidy.release isEmpty fun unstarted =>
      absurd unstarted ready.isStarted
    exact (ready.giveUp released rfl rfl rfl _ (after _)).orderly inRange
  · next signal queue _ =>
    have popped : program.Ready { execution.interpreter with queue } true rest := by
      refine ready.change ?_ rfl rfl rfl
      have tidy := ready.tidy.withQueue queue ready.isStarted
      rwa [← ready.isBusy] at tidy
    dsimp only
    split
    · exact (popped.push (.note after _)).orderly inRange
    · split
      · next step found =>
        refine (popped.push (.stepping (planned_stepOf? popped.tidy found) ?_)).orderly inRange
        rintro work leads
        rw [begun_of_stepOf? found] at leads
        obtain ⟨result, rfl⟩ := leads
        exact after result
      · exact (popped.push (.note after _)).orderly inRange

theorem Planned.continues {configuration : Configuration} {context : Context}
    (planned : program.Planned configuration context step) :
    step.plan.Continues configuration := by
  unfold Planned at planned
  cases origin : step.origin with
  | start resume =>
      rw [origin] at planned
      obtain ⟨isInitial, isCurrent⟩ := planned
      rw [isInitial, isCurrent]
      exact Definition.continues_initialPlan
  | signal fired drain =>
      rw [origin] at planned
      rw [planned.1]
      exact Definition.continues_plan

section Step

variable (inRange : execution.overflowed = false)
variable (ready : program.Ready execution.interpreter true rest)
variable (planned : program.Planned execution.interpreter.configuration
  execution.interpreter.context step)
variable (after : ∀ work, step.origin.LeadsTo work → Work.Shaped
  (program.Planned execution.interpreter.configuration execution.interpreter.context) false work)

include inRange ready planned after

theorem orderly_abort {error : InterpreterError} :
    program.Orderly (execution.abort rest step error) := by
  unfold Execution.abort
  cases origin : step.origin with
  | start resume =>
      rw [Planned, origin] at planned
      have released := ready.tidy.abandonStart planned.2
      exact (ready.giveUp released rfl rfl rfl _
        (after _ (origin ▸ ⟨_, rfl⟩))).orderly inRange
  | signal fired drain =>
      have onward := fun result => after (drain.resume result) (origin ▸ ⟨result, rfl⟩)
      cases fired with
      | none => exact (ready.push (.note onward _)).orderly inRange
      | some timer =>
          have rearmed := ready.withTimers (execution.interpreter.timers.rearm timer.1 timer.2)
            fun _ member => Timers.exists_of_mem_mark member
          exact (rearmed.push (.note onward _)).orderly inRange

theorem orderly_actionDone {call : Invocation} {outcome : Except String ActionEffect} :
    program.Orderly (execution.actionDone program rest step call outcome) := by
  cases outcome with
  | ok effect =>
      have onward : Work.Shaped
          (program.Planned execution.interpreter.configuration execution.interpreter.context) true
          (.stepping { step with
            context := effect.context, raised := step.raised ++ effect.raised }) :=
        .stepping planned after
      exact (ready.push onward).orderly inRange
  | error reason => exact orderly_abort inRange ready planned after

/-- Publishing a step changes what steps are planned in, but only the step's own work
depended on that. -/
theorem orderly_finish {now : Timestamp} :
    program.Orderly (execution.finish program now rest step) := by
  unfold Execution.finish
  split
  · exact (ready.push (.drainAfter after _)).orderly inRange
  · exact orderly_overflow
  · next published isPublished =>
    have tidy := ready.tidy.commit ready.isBusy planned.continues isPublished
    obtain ⟨_, _, _, sameBusy⟩ := Interpreter.configuration_of_published isPublished
    refine Sound.orderly ⟨tidy, .inl ⟨.notifying _ _, .inr ⟨sameBusy.trans ready.isBusy, ?_, ?_⟩⟩⟩
      inRange
    · exact .drainAfter (fun work leads => (after work leads).of_idle rfl) _
    · exact ready.room.owned.2.of_idle

theorem orderly_stepNext {now : Timestamp} :
    program.Orderly (execution.stepNext program now rest step) := by
  simp only [Execution.stepNext]
  split
  · exact orderly_finish inRange ready planned after
  · next call pending _ =>
    split
    · have onward : Work.Shaped
          (program.Planned execution.interpreter.configuration execution.interpreter.context) true
          (.stepping { step with pending }) := .stepping planned after
      exact (ready.push onward).orderly inRange
    · next action _ =>
      have onward : Work.Shaped
          (program.Planned execution.interpreter.configuration execution.interpreter.context) true
          (.acting { step with pending } call (action ⟨step.context, step.event,
            (program.definition.node call.state).id⟩)) := .acting call _ planned after
      exact (ready.push onward).orderly inRange

end Step

theorem orderly_advanceNext {limit : Duration} {fired : Nat}
    {resume : Except InterpreterError Nat → Work σ Listener}
    (inRange : execution.overflowed = false)
    (ready : program.Ready execution.interpreter owner rest)
    (after : ∀ result, Work.Shaped
      (program.Planned execution.interpreter.configuration execution.interpreter.context)
      owner (resume result)) :
    program.Orderly (execution.advanceNext rest limit fired resume) := by
  simp only [Execution.advanceNext]
  split
  · have settled := ready.withTimers (execution.interpreter.timers.settle limit)
      fun timer member => ⟨timer, member, rfl⟩
    exact (settled.push (after _)).orderly inRange
  · next timer timers due =>
    split at due
    · have popped := ready.withTimers timers
        fun _ member => Timers.exists_of_pop? due member
      refine orderly_deliver inRange popped fun result => ?_
      cases result with
      | ok delivery => exact .advancing _ _ after
      | error error => exact after _
    · cases due

/-- Whatever the work on top, one small step keeps the invariant. -/
theorem Orderly.next {before after : Execution σ Listener} (orderly : program.Orderly before)
    (steps : program.Step before after) : program.Orderly after := by
  obtain ⟨now, steps⟩ := steps
  unfold Execution.step? at steps
  cases isWork : before.work with
  | nil => simp [isWork] at steps
  | cons top rest =>
      obtain ⟨inRange, sound⟩ := orderly.sound isWork
      obtain ⟨owner, shaped, ready⟩ := sound.ready
      -- work that owns nothing may end: what lies under it is in order by itself
      have below : ∀ {below : List (Work σ Listener)}, owner = false → below = rest →
          program.Orderly { before with work := below } := by
        rintro below rfl rfl
        exact Sound.orderly ⟨ready.tidy, ready.room⟩ inRange
      simp only [isWork] at steps
      cases shaped with
      | client code =>
          obtain rfl := Option.some.inj steps
          exact orderly_proceed inRange ready .client fun _ => below rfl rfl
      | listening code =>
          obtain rfl := Option.some.inj steps
          exact orderly_proceed inRange ready .listening fun _ => below rfl rfl
      | notifying subscribers snapshot =>
          cases subscribers with
          | nil =>
              obtain rfl := Option.some.inj steps
              exact below rfl rfl
          | cons subscriber subscribers =>
              obtain rfl := Option.some.inj steps
              have remaining := ready.push (.notifying subscribers snapshot)
              exact Sound.orderly ⟨remaining.tidy, .inl ⟨.listening _, remaining.stacked⟩⟩ inRange
      | draining after =>
          obtain rfl := Option.some.inj steps
          exact orderly_drainNext inRange ready after
      | stepping planned after =>
          obtain rfl := Option.some.inj steps
          exact orderly_stepNext inRange ready planned after
      | acting call code planned after =>
          obtain rfl := Option.some.inj steps
          exact orderly_proceed inRange ready (fun code => .acting call code planned after)
            fun _ => orderly_actionDone inRange ready planned after
      | advancing limit fired after =>
          obtain rfl := Option.some.inj steps
          exact orderly_advanceNext inRange ready after

/-- An interpreter before its first request: a fresh one, or one restored from a
checkpoint. -/
def Begins (program : Program σ Listener) (interpreter : Interpreter Listener) : Prop :=
  (∃ limit, program.interpreter limit = .ok interpreter) ∨
    ∃ limit checkpoint, program.restore limit checkpoint = .ok interpreter

/-- What some routine can make of such an interpreter, at some readings of the clock. -/
def Reachable (program : Program σ Listener) (execution : Execution σ Listener) : Prop :=
  ∃ interpreter memory code, program.Begins interpreter ∧
    Relation.ReflTransGen program.Step (Execution.ofClient interpreter memory code) execution

theorem Reachable.trans {before after : Execution σ Listener} (reachable : program.Reachable before)
    (steps : Relation.ReflTransGen program.Step before after) : program.Reachable after := by
  obtain ⟨interpreter, memory, code, begins, earlier⟩ := reachable
  exact ⟨interpreter, memory, code, begins, earlier.trans steps⟩

theorem tidy_assemble {definition : Definition} {lifecycle : Lifecycle}
    {configuration : Configuration} {context : Context} {history : History}
    (unstarted : lifecycle = .notStarted → configuration = definition.initialConfiguration) :
    (Interpreter.assemble definition lifecycle configuration context history :
      Interpreter Listener).Tidy definition where
  idle _ := ⟨rfl, rfl⟩
  unstarted isUnstarted := ⟨rfl, unstarted isUnstarted⟩
  armed timer isArmed := by
    simp only [Interpreter.assemble] at isArmed
    split at isArmed
    · rcases Timers.mem_armAll isArmed with before | entered
      · cases before
      · exact Definition.state_of_timersOf entered
    · cases isArmed

theorem interpreter_eq {limit : Option UInt64}
    (isOk : program.interpreter limit = .ok interpreter) :
    interpreter = .fresh program.definition limit := by
  unfold Program.interpreter at isOk
  cases valid : program.registry.validate program.definition with
  | error error => simp [valid, bind, Except.bind] at isOk
  | ok _ => simpa [valid, bind, Except.bind, pure, Except.pure] using isOk.symm

theorem not_unstarted_resumed (status : Status) : Lifecycle.resumed status ≠ .notStarted := by
  cases status <;> simp [Lifecycle.resumed]

/-- A restored interpreter is assembled at the configuration of the checkpoint's value. -/
theorem restore_eq {limit : Option UInt64} {checkpoint : Checkpoint}
    (isOk : program.restore limit checkpoint = .ok interpreter) :
    ∃ lifecycle configuration context history, lifecycle ≠ .notStarted ∧
      Configuration.ofValue program.definition.toStateTree checkpoint.value = .ok configuration ∧
      interpreter = .assemble program.definition lifecycle configuration context history := by
  unfold restore at isOk
  cases checked : checkpoint.checkVersion with
  | error error => simp [checked, bind, Except.bind] at isOk
  | ok _ =>
      simp only [checked, bind, Except.bind] at isOk
      split at isOk
      · cases isOk
      · cases valued : Configuration.ofValue program.definition.toStateTree checkpoint.value with
        | error error => simp [valued, Except.mapError] at isOk
        | ok configuration =>
            cases valid : program.registry.validate program.definition with
            | error error => simp [valued, valid, Except.mapError] at isOk
            | ok _ =>
                simp only [valued, valid, Except.mapError, pure, Except.pure,
                  Except.ok.injEq] at isOk
                refine ⟨_, configuration, _, _, ?_, rfl, isOk.symm⟩
                split
                · simp
                · exact not_unstarted_resumed _

/-- New or restored, an interpreter is assembled at a configuration. -/
theorem Begins.exists_assemble (begins : program.Begins interpreter) :
    ∃ lifecycle configuration context history,
      interpreter = .assemble program.definition lifecycle configuration context history := by
  rcases begins with ⟨limit, isOk⟩ | ⟨limit, checkpoint, isOk⟩
  · exact ⟨_, _, _, _, interpreter_eq isOk⟩
  · obtain ⟨_, _, _, _, _, _, assembled⟩ := restore_eq isOk
    exact ⟨_, _, _, _, assembled⟩

theorem Begins.tidy (begins : program.Begins interpreter) :
    interpreter.Tidy program.definition ∧ interpreter.busy = false := by
  rcases begins with ⟨limit, isOk⟩ | ⟨limit, checkpoint, isOk⟩
  · rw [interpreter_eq isOk]
    exact ⟨tidy_assemble fun _ => rfl, rfl⟩
  · obtain ⟨lifecycle, configuration, context, history, started, _, rfl⟩ := restore_eq isOk
    exact ⟨tidy_assemble fun unstarted => absurd unstarted started, rfl⟩

theorem orderly_ofClient {memory : σ} {code : Routine σ Listener Unit}
    (begins : program.Begins interpreter) :
    program.Orderly (Execution.ofClient interpreter memory code) := by
  obtain ⟨tidy, isIdle⟩ := begins.tidy
  refine Sound.orderly ⟨tidy, .inl ⟨.client code, ?_⟩⟩ rfl
  exact isIdle

/-- Whatever the program does, every state that it reaches is orderly. -/
theorem Reachable.orderly {execution : Execution σ Listener}
    (reachable : program.Reachable execution) : program.Orderly execution := by
  obtain ⟨interpreter, memory, code, begins, steps⟩ := reachable
  induction steps with
  | refl => exact orderly_ofClient begins
  | tail _ step ih => exact ih.next step

/-- A studio whose actions touch nothing else, and in which no one listens. -/
def studio (boot warm : Except String Unit) : Program Unit Empty where
  definition := MachineSpec.studio.resolved
  registry.actions :=
    [("boot", fun call => .done (boot.map fun _ => ⟨call.context, []⟩)),
      ("warm", fun call => .done (warm.map fun _ => ⟨call.context, []⟩))]
  listen := nofun

theorem begins_studio (boot warm : Except String Unit) :
    (studio boot warm).Begins (.fresh MachineSpec.studio.resolved none) := .inl ⟨none, by cbv⟩

/-- A hall whose bell sends a signal, lets time pass and raises an event while it rings, and
in which whoever listens answers with a signal. -/
def hall : Program Unit Unit where
  definition := MachineSpec.hall.resolved
  registry.actions :=
    [("ring", fun call => do
      let _ ← Routine.request (.send "knock")
      let _ ← Routine.request (.advance (.ofMillis 40))
      return .ok ⟨call.context, ["motion"]⟩)]
  listen _ _ := do
    let _ ← Routine.request (.send "seen")

theorem begins_hall : hall.Begins (.fresh MachineSpec.hall.resolved none) := .inl ⟨none, by cbv⟩

/-- Someone subscribes, starts the hall, comes in and waits. -/
def visiting : Execution Unit Unit :=
  .ofClient (.fresh MachineSpec.hall.resolved none) () do
    let _ ← Routine.request (.subscribe ())
    let _ ← Routine.request .start
    let _ ← Routine.request (.send "motion")
    let _ ← Routine.request (.send "open")
    let _ ← Routine.request (.advance (.ofMillis 60))
    Routine.request .stop

end Program

end Statechart
