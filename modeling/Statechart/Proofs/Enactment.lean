import Statechart.Proofs.Ending
import Statechart.Proofs.Resumption
import Statechart.Proofs.Tellings
import Statechart.Proofs.TimerDiscipline

/-!
# What steps commit

A step is called for by where the machine stands: it is the initial entry, or an event or a
timer has transitions to take. Where actions make no requests, what is left to do of a step
comes to the same from its first action to its last. So what it commits is what its actions
perform in one go, and what a machine comes to follows from its commitments alone.
-/

namespace Statechart

variable {σ Listener : Type}

/-- The work of a step whose action, if one is in progress, makes no requests. -/
inductive Work.Unasking (step : RunningStep (Work σ Listener)) : Work σ Listener → Prop
  | stepping : Unasking step (.stepping step)
  | acting (call : Invocation) {code : Routine σ Listener (Except String ActionEffect)}
      (silent : code.Silent) : Unasking step (.acting step call code)

theorem Work.Unasking.isOf {step : RunningStep (Work σ Listener)} {work : Work σ Listener}
    (unasking : work.Unasking step) : work.IsOf step := by
  cases unasking with
  | stepping => exact .inl rfl
  | acting call silent => exact .inr ⟨call, _, rfl⟩

/-- A machine that runs is not where it ends, and one that is done is. -/
structure Interpreter.DoneAtEnd (definition : Definition) (interpreter : Interpreter Listener) :
    Prop where
  unfinished : interpreter.lifecycle = .running → Configuration.isInFinal definition.toStateTree
    interpreter.configuration StateTree.root = false
  finished : interpreter.lifecycle = .done → Configuration.isInFinal definition.toStateTree
    interpreter.configuration StateTree.root = true

namespace Program

/-- Where a machine stands calls for a step: for an event, with the timer that has sent it, on
whether the step is entered in the history, on its plan, and on the context it begins with. -/
inductive Calls (program : Program σ Listener) (i : Interpreter Listener) :
    String → Option (TimerKey × Nat) → Bool → Plan → Context → Prop
  | start (isInitial : i.configuration = program.definition.initialConfiguration) :
      Calls program i initEvent none false program.definition.initialPlan
        program.definition.context
  | event {name : String} {transitions : List Transition}
      (selected : program.definition.select program.registry.guard? i.configuration i.context
        name = transitions) (handled : transitions ≠ []) :
      Calls program i name none true (program.definition.plan i.configuration transitions)
        i.context
  | timer {key : TimerKey} {delayed : DelayedTransition} (generation : Nat)
      (isActive : key.state ∈ i.configuration)
      (isDelayed : program.definition.delayed? key = some delayed) :
      Calls program i delayed.transition.event (some (key, generation)) true
        (program.definition.plan i.configuration [delayed.transition]) i.context

/-- What is left to do of a step comes to, as long as it makes no requests. -/
def remaining? (program : Program σ Listener) :
    Work σ Listener → σ → Option (Except InterpreterError (Context × List String) × σ)
  | .stepping step, memory =>
    program.perform? step.event step.pending step.context step.raised memory
  | .acting step call code, memory =>
    match code.outcome? memory with
    | none => none
    | some (.ok effect, memory) =>
      program.perform? step.event step.pending effect.context (step.raised ++ effect.raised) memory
    | some (.error reason, memory) =>
      let state := (program.definition.node call.state).id
      some (.error (.actionFailed call.action state step.event reason), memory)
  | _, _ => none

/-- A step that is called for commits what its actions perform. -/
def Enacts (program : Program σ Listener) (i : Interpreter Listener) (step : StepResult) : Prop :=
  ∃ context memory left,
    program.Calls i step.event step.fired step.recorded step.plan context ∧
    program.perform? step.event step.plan.invocations context [] memory =
      some (.ok (step.context, step.raised), left)

/-- A step in progress has been called for, and makes no requests; what is left of it comes to
what the whole of it does. -/
def Foreseen (program : Program σ Listener) (execution : Execution σ Listener) : Prop :=
  ∀ step, execution.Performs step → ∃ work context memory,
    execution.work = [work] ∧ work.Unasking step ∧
    program.Calls execution.interpreter step.event step.origin.fired step.origin.isRecorded
      step.plan context ∧
    program.remaining? work execution.memory =
      program.perform? step.event step.plan.invocations context [] memory

variable {program : Program σ Listener} {now : Timestamp}
variable {execution before after : Execution σ Listener}
variable {phase : Phase σ Listener} {step : RunningStep (Work σ Listener)} {work : Work σ Listener}

open Work Chronicle

/-- A small step of a step goes on with it, unless all actions have run or one has failed. -/
theorem unasking_next (silent : program.registry.Silent) (unasking : work.Unasking step)
    (isWork : before.work = [work]) (steps : before.step? program now = some after) :
    (∃ next later memory, later.Unasking next ∧ next.origin = step.origin ∧
        next.event = step.event ∧ next.plan = step.plan ∧
        after = { before with memory, work := [later] } ∧
        program.remaining? later memory = program.remaining? work before.memory) ∨
      (work = .stepping step ∧ step.pending = [] ∧ after = before.finish program now [] step) ∨
      ∃ error, after = before.abort [] step error := by
  simp only [Execution.step?, isWork] at steps
  cases unasking with
  | stepping =>
      obtain rfl := Option.some.inj steps
      cases pending : step.pending with
      | nil => exact .inr (.inl ⟨rfl, rfl, by simp [Execution.stepNext, pending]⟩)
      | cons call later =>
          left
          simp only [Execution.stepNext, pending]
          cases isAction : program.registry.action? call.action with
          | none =>
              refine ⟨{ step with pending := later }, _, before.memory, .stepping, rfl, rfl, rfl,
                rfl, ?_⟩
              simp [remaining?, pending, perform?, isAction]
          | some action =>
              refine ⟨{ step with pending := later }, _, before.memory,
                .acting call (silent _ _ isAction _), rfl, rfl, rfl, rfl, ?_⟩
              change _ = program.perform? step.event step.pending step.context step.raised before.memory
              simp only [pending, perform?, isAction]
              rfl
  | @acting call code isSilent =>
      obtain rfl := Option.some.inj steps
      cases code with
      | done outcome =>
          cases outcome with
          | ok effect =>
              let next : RunningStep (Work σ Listener) :=
                { step with context := effect.context, raised := step.raised ++ effect.raised }
              exact .inl ⟨next, _, before.memory, .stepping, rfl, rfl, rfl, rfl, rfl⟩
          | error reason => exact .inr (.inr ⟨_, rfl⟩)
      | read next =>
          exact .inl ⟨step, _, before.memory, .acting call (isSilent _), rfl, rfl, rfl, rfl, rfl⟩
      | write memory next =>
          have nextSilent : next.Silent := isSilent
          exact .inl ⟨step, _, memory, .acting call nextSilent, rfl, rfl, rfl, rfl, rfl⟩
      | ask request next => exact isSilent.elim

/-- No step is in progress where there is nothing but work of others. -/
theorem not_performs (others : ∀ some ∈ execution.work, Outside some ∨
      (∃ drain, some = .draining drain) ∨
      ∃ subscribers snapshot, some = .notifying subscribers snapshot) :
    ¬ execution.Performs step := by
  rintro ⟨some, member, leads⟩
  rcases others some member with outside | ⟨drain, rfl⟩ | ⟨subscribers, snapshot, rfl⟩
  · exact not_processing_of_outside outside (Phase.processing_of_leads leads)
  · cases leads with
    | here isOf => simp [IsOf] at isOf
  · cases leads with
    | here isOf => simp [IsOf] at isOf

theorem outside_of_performs (situated : program.Situated phase before)
    (performs : before.Performs step) : ∀ work, step.origin.LeadsTo work → Outside work := by
  obtain rfl := situated.arranged.performs_iff.1 performs
  have arranged := situated.arranged
  generalize before.work = work at arranged
  cases arranged with
  | hosted hosts leads =>
      cases hosts with
      | step after => exact after

/-- A step that comes to its end is in progress no longer. -/
theorem not_performs_finish {other : RunningStep (Work σ Listener)} :
    ¬ (before.finish program now [] step).Performs other := by
  unfold Execution.finish
  split <;> refine not_performs fun some member => ?_
  · exact .inr (.inl ⟨_, List.mem_singleton.1 member⟩)
  · cases member
  · rcases List.mem_cons.1 member with rfl | member
    · exact .inr (.inr ⟨_, _, rfl⟩)
    · exact .inr (.inl ⟨_, List.mem_singleton.1 member⟩)

theorem not_performs_abort {other : RunningStep (Work σ Listener)} {error : InterpreterError}
    (after : ∀ work, step.origin.LeadsTo work → Outside work) :
    ¬ (before.abort [] step error).Performs other := by
  unfold Execution.abort
  cases origin : step.origin with
  | start resume =>
      have outside : Outside (resume (.error error)) := after _ (origin ▸ ⟨_, rfl⟩)
      refine not_performs fun some member => ?_
      rcases List.mem_append.1 member with noticed | member
      · right; right
        cases notice : before.interpreter.abandonStart.2 with
        | none => simp [notice, Execution.noticeWork] at noticed
        | some pair => exact ⟨_, _, by simpa [notice, Execution.noticeWork] using noticed⟩
      · obtain rfl := List.mem_singleton.1 member
        exact .inl outside
  | signal fired drain =>
      exact not_performs fun some member => .inr (.inl ⟨_, List.mem_singleton.1 member⟩)

theorem eq_of_performs {other : RunningStep (Work σ Listener)} (performs : execution.Performs step)
    (isWork : execution.work = [.stepping other]) : step = other := by
  obtain ⟨some, member, leads⟩ := performs
  rw [isWork] at member
  obtain rfl := List.mem_singleton.1 member
  exact Phase.eq_of_leads (.here (.inl rfl)) leads

/-- Nothing but a request to start makes a machine run that has not been started. -/
theorem work_of_started (arranged : Phase.outside.Arranged before.work)
    (unstarted : before.interpreter.lifecycle = .notStarted)
    (steps : before.step? program now = some after)
    (started : after.interpreter.lifecycle = .running) :
    ∃ resume, after.work = [.stepping (.begin (.start resume) initEvent
      program.definition.initialPlan program.definition.context)] := by
  have notRunning : before.interpreter.isRunning = false := by
    simp [Interpreter.isRunning, unstarted]
  generalize isWork : before.work = work at arranged
  cases arranged with
  | ended => simp [Execution.step?, isWork] at steps
  | hosted hosts leads =>
      cases hosts with
      | client =>
          cases leads with
          | advancing limit fired resumes =>
              simp only [Execution.step?, isWork, Execution.advanceNext, notRunning,
                Option.some.injEq] at steps
              subst steps
              simp [unstarted] at started
          | here isClient =>
              obtain ⟨code, rfl⟩ := isClient
              simp only [Execution.step?, isWork, Option.some.injEq] at steps
              subst steps
              cases code with
              | done | read | write => simp [Execution.proceed, unstarted] at started
              | ask request next =>
                  cases request with
                  | start =>
                      refine ⟨fun answer => .client (next answer), ?_⟩
                      simp [Execution.proceed, Execution.meet, unstarted]
                  | stop =>
                      simp [Execution.proceed, Execution.meet, Interpreter.lifecycle_stop,
                        unstarted] at started
                  | _ =>
                      simp [Execution.proceed, Execution.meet, Execution.deliver, notRunning,
                        Interpreter.subscribe, Interpreter.unsubscribe, unstarted] at started

/-- A signal that is taken is processed next. -/
theorem work_of_taken {signal : Signal} {queue : List Signal}
    {drain : Drain (Work σ Listener)} (arranged : Phase.pass.Arranged before.work)
    (isQueue : before.interpreter.queue = signal :: queue)
    (isRunning : before.interpreter.isRunning = true)
    (found : Execution.stepOf? program { before.interpreter with queue } drain signal = some step)
    (steps : before.step? program now = some after) :
    ∃ other, Execution.stepOf? program { before.interpreter with queue } other signal =
        some { step with origin := .signal signal.fired other } ∧
      after.work = [.stepping { step with origin := .signal signal.fired other }] := by
  generalize isWork : before.work = work at arranged
  cases arranged with
  | hosted hosts => cases hosts
  | @pass other =>
      have stillRunning : Interpreter.isRunning { before.interpreter with queue } = true :=
        isRunning
      have also : Execution.stepOf? program { before.interpreter with queue } other signal =
          some { step with origin := .signal signal.fired other } := by
        rcases stepOf?_cases program { before.interpreter with queue } signal with
          nothing | ⟨event, plan, begun⟩
        · cases (nothing drain).symm.trans found
        · obtain rfl := Option.some.inj ((begun drain).symm.trans found)
          exact begun other
      refine ⟨other, also, ?_⟩
      simp only [Execution.step?, isWork, Execution.drainNext, isQueue, stillRunning, also,
        Option.some.injEq] at steps
      subst steps
      rfl

theorem calls_of_stepOf? {i : Interpreter Listener} {drain : Drain (Work σ Listener)}
    {signal : Signal} (armed : ∀ timer ∈ i.timers.armed, timer.key.state ∈ i.configuration)
    (found : Execution.stepOf? program i drain signal = some step) :
    program.Calls i step.event step.origin.fired step.origin.isRecorded step.plan i.context ∧
      step = .begin step.origin step.event step.plan i.context := by
  simp only [Execution.stepOf?] at found
  split at found
  · split at found
    · cases found
    · next handled =>
      obtain rfl := Option.some.inj found
      exact ⟨.event rfl handled, rfl⟩
  · next key generation =>
    split at found
    · next current =>
      obtain ⟨delayed, isDelayed, rfl⟩ := Option.map_eq_some_iff.1 found
      obtain ⟨timer, isArmed, rfl, _⟩ := Timers.exists_of_isCurrent current
      exact ⟨.timer generation (armed timer isArmed) isDelayed, rfl⟩
    · cases found

/-- A step that is in progress after a small step, and was not before it, has just been called
for. -/
theorem foreseen_of_begun (situated : program.Situated phase before)
    (steps : before.step? program now = some after) (performs : after.Performs step)
    (inRange : after.overflowed = false) (fresh : ∀ other, phase ≠ .step other) :
    ∃ context, program.Calls after.interpreter step.event step.origin.fired
        step.origin.isRecorded step.plan context ∧
      after.work = [.stepping step] ∧ step = .begin step.origin step.event step.plan context := by
  obtain ⟨next, isNext, move⟩ := situated.advance steps inRange
  have isStep := isNext.arranged.performs_iff.1 performs
  have arranged := situated.arranged
  have tidy := situated.settled.tidy
  generalize isBefore : before.interpreter = i at move
  generalize isAfter : after.interpreter = j at move
  generalize program.happenings now before = happenings at move
  cases move with
  | begin unstarted resume =>
      have started : after.interpreter.lifecycle = .running := by rw [isAfter]
      have wasUnstarted : before.interpreter.lifecycle = .notStarted := by rw [isBefore, unstarted]
      obtain ⟨other, isWork⟩ := work_of_started arranged wasUnstarted steps started
      obtain rfl := eq_of_performs performs isWork
      have isInitial := (tidy.unstarted wasUnstarted).2
      rw [isBefore] at isInitial
      exact ⟨_, .start isInitial, isWork, rfl⟩
  | @take _ signal queue drain _ isQueue isRunning found =>
      subst isBefore
      obtain ⟨other, also, isWork⟩ := work_of_taken arranged isQueue isRunning found steps
      obtain rfl := eq_of_performs performs isWork
      obtain ⟨calls, isBegun⟩ :=
        calls_of_stepOf? (i := { before.interpreter with queue }) tidy.armed also
      exact ⟨_, calls, isWork, isBegun⟩
  | stop =>
      cases told : i.stop.2 with
      | none => exact absurd (by simpa [told, Phase.bidding] using isStep) (fresh step)
      | some pair => simp [told, Phase.bidding] at isStep
  | release => cases told : i.release.2 <;> simp [told, Phase.bidding] at isStep
  | act | abandon => exact absurd rfl (fresh _)
  | quiet | enter | subscribe | unsubscribe | settle => exact absurd isStep (fresh _)
  | _ => cases isStep

/-- What has been foreseen of a step stays so from one small step to the next. -/
theorem Foreseen.next (silent : program.registry.Silent) (situated : program.Situated phase before)
    (foreseen : program.Foreseen before) (steps : before.step? program now = some after)
    (inRange : after.overflowed = false) : program.Foreseen after := by
  intro step performs
  obtain ⟨_, isNext, _⟩ := situated.advance steps inRange
  by_cases fresh : ∀ other, phase ≠ .step other
  · obtain ⟨context, calls, isWork, isBegun⟩ :=
      foreseen_of_begun situated steps performs inRange fresh
    refine ⟨_, context, after.memory, isWork, .stepping, calls, ?_⟩
    rw [isBegun]
    rfl
  · obtain ⟨earlier, rfl⟩ := not_forall_not.1 fresh
    have performed := situated.arranged.performs_iff.2 rfl
    obtain ⟨work, context, memory, isWork, unasking, calls, comes⟩ := foreseen earlier performed
    rcases unasking_next silent unasking isWork steps with
      ⟨next, later, left, stillUnasking, sameOrigin, sameEvent, samePlan, rfl, same⟩ |
      ⟨_, _, rfl⟩ | ⟨error, rfl⟩
    · have onward : Execution.Performs
          { before with memory := left, work := [later] } next :=
        ⟨later, .head _, .here stillUnasking.isOf⟩
      obtain rfl := Phase.step.inj <| (isNext.arranged.performs_iff.1 onward).symm.trans
        (isNext.arranged.performs_iff.1 performs)
      refine ⟨later, context, memory, rfl, stillUnasking, ?_, ?_⟩
      · rw [sameOrigin, sameEvent, samePlan]
        exact calls
      · rw [same, comes, sameEvent, samePlan]
    · exact absurd performs not_performs_finish
    · exact absurd performs (not_performs_abort (outside_of_performs situated performed))

/-- What takes effect has been called for, and is what its actions perform. -/
theorem Foreseen.enacts (situated : program.Situated phase before)
    (foreseen : program.Foreseen before) (steps : before.step? program now = some after)
    (inRange : after.overflowed = false) :
    ∀ commitment ∈ commitments (program.happenings now before),
      program.Enacts before.interpreter commitment.step := by
  obtain ⟨_, _, move⟩ := situated.advance steps inRange
  rcases move.commits_one with nothing | ⟨step, rfl, _, isCommitment⟩
  · simp [nothing]
  · rw [isCommitment]
    intro commitment member
    obtain rfl := List.mem_singleton.1 member
    obtain ⟨work, context, memory, isWork, unasking, calls, comes⟩ :=
      foreseen step (situated.arranged.performs_iff.2 rfl)
    cases unasking with
    | stepping =>
        cases pending : step.pending with
        | cons call later => simp [happenings, isWork, pending] at isCommitment
        | nil =>
            rw [remaining?, pending] at comes
            exact ⟨context, memory, before.memory, calls, comes.symm⟩
    | @acting call code silent =>
        -- an action in progress commits nothing
        cases code with
        | done outcome =>
            cases outcome <;> cases origin : step.origin <;>
              simp [happenings, isWork, origin, Happening.committed?] at isCommitment
        | read | write => simp [happenings, isWork] at isCommitment
        | ask => exact silent.elim

theorem Move.context_eq {next : Phase σ Listener} {i j : Interpreter Listener}
    {happenings : Chronicle Listener} (move : program.Move now phase i happenings next j)
    (nothing : commitments happenings = []) : j.context = i.context := by
  cases move with
  | stop => exact (i.stop_spec).2.2.1
  | publish isPublished =>
      rw [Interpreter.commitments_ended isPublished] at nothing
      cases nothing
  | _ => rfl

/-- What holds of where a machine stands in the beginning, and is kept by every step that has
been called for and commits what its actions perform, holds at all times. -/
theorem RunsTo.induct_enacted {interpreter : Interpreter Listener} {memory : σ}
    {code : Routine σ Listener Unit} {chronicle : Chronicle Listener}
    (invariant : Configuration → Context → List Commitment → Prop)
    (run : program.RunsTo (.ofClient interpreter memory code) chronicle execution)
    (begins : program.Begins interpreter) (silent : program.registry.Silent)
    (initially : invariant interpreter.configuration interpreter.context [])
    (kept : ∀ {now i after step earlier},
      Interpreter.Published program.definition now step i after →
      program.Enacts i step → invariant i.configuration i.context earlier →
      invariant after.configuration after.context
        (earlier ++ [i.commitment after program.definition now step])) :
    invariant execution.interpreter.configuration execution.interpreter.context
      (commitments chronicle) := by
  have situated : program.Situated .outside (.ofClient interpreter memory code) :=
    situated_ofClient begins
  have along : ∀ {chronicle last},
      program.RunsTo (.ofClient interpreter memory code) chronicle last →
      last.overflowed = false → program.Foreseen last ∧
        invariant last.interpreter.configuration last.interpreter.context
          (commitments chronicle) := by
    intro chronicle last run
    induction run with
    | refl =>
        refine fun _ => ⟨fun step performs => ?_, initially⟩
        cases situated.arranged.performs_iff.1 performs
    | @tail chronicle before after now run steps ih =>
        intro inRange
        obtain ⟨phase, isSituated⟩ := run.situated_before situated steps
        obtain ⟨foreseen, holds⟩ := ih isSituated.inRange
        obtain ⟨next, _, move⟩ := isSituated.advance steps inRange
        have enacts := foreseen.enacts isSituated steps inRange
        refine ⟨foreseen.next silent isSituated steps inRange, ?_⟩
        rw [commitments_append]
        rcases move.publishes_or_keeps with ⟨step, _, _, _, published, commits⟩ | ⟨nothing, keeps⟩
        · rw [commits] at enacts ⊢
          exact kept published (enacts _ (.head _)) holds
        · rw [nothing, List.append_nil, keeps.configuration, move.context_eq nothing]
          exact holds
  obtain ⟨last, timers, runsToo, inRange, isInterpreter⟩ := run.exists_inRange situated
  rw [isInterpreter]
  exact (along runsToo inRange).2

/-- A machine is done once a step leads where it ends, and goes on otherwise. -/
theorem lifecycle_of_commit {definition : Definition} {i published : Interpreter Listener}
    {result : StepResult} (isPublished : i.commit definition now result = .published published) :
    published.lifecycle = if Configuration.isInFinal definition.toStateTree
      published.configuration StateTree.root = true then .done else .running := by
  have wasRunning := (Interpreter.published_of_commit isPublished).wasRunning
  unfold Interpreter.commit at isPublished
  split at isPublished
  · cases isPublished
  · split at isPublished
    · cases isPublished
    · cases isPublished
      simp [wasRunning]

/-- A machine comes to be done where it ends only, and what is done stays where it is. -/
theorem Move.finished {next : Phase σ Listener} {i j : Interpreter Listener}
    {happenings : Chronicle Listener} (move : program.Move now phase i happenings next j)
    (finished : i.lifecycle = .done → Configuration.isInFinal program.definition.toStateTree
      i.configuration StateTree.root = true) (isDone : j.lifecycle = .done) :
    Configuration.isInFinal program.definition.toStateTree j.configuration StateTree.root =
      true := by
  cases move with
  | begin => cases isDone
  | stop =>
      have sameConfiguration := (i.stop_spec).2.1
      rw [Interpreter.lifecycle_stop] at isDone
      split at isDone
      · next wasDone =>
        rw [sameConfiguration]
        exact finished wasDone
      · cases isDone
  | publish isPublished =>
      have lifecycle := lifecycle_of_commit isPublished
      rw [isDone] at lifecycle
      split at lifecycle
      · next settled => exact settled
      · cases lifecycle
  | abandon =>
      simp only [Interpreter.abandonStart, Interpreter.release] at isDone
      split at isDone
      · cases isDone
      · exact finished isDone
  | _ => exact finished isDone

theorem RunsTo.finished {start : Execution σ Listener} {chronicle : Chronicle Listener}
    (run : program.RunsTo start chronicle execution) (situated : program.Situated phase start)
    (initially : start.interpreter.lifecycle = .done → Configuration.isInFinal
      program.definition.toStateTree start.interpreter.configuration StateTree.root = true) :
    execution.interpreter.lifecycle = .done → Configuration.isInFinal
      program.definition.toStateTree execution.interpreter.configuration StateTree.root = true := by
  obtain ⟨last, timers, runsToo, inRange, isInterpreter⟩ := run.exists_inRange situated
  rw [isInterpreter]
  obtain ⟨_, _, stillSo⟩ := runsToo.induct (fun _ i _ => i.lifecycle = .done →
    Configuration.isInFinal program.definition.toStateTree i.configuration StateTree.root = true)
    inRange situated initially fun _ move finished => move.finished finished
  exact stillSo

theorem Move.doneAtEnd {next : Phase σ Listener} {i j : Interpreter Listener}
    {happenings : Chronicle Listener} (move : program.Move now phase i happenings next j)
    (tidy : i.Tidy program.definition)
    (initially : Configuration.isInFinal program.definition.toStateTree
      program.definition.initialConfiguration StateTree.root = false)
    (doneAtEnd : i.DoneAtEnd program.definition) : j.DoneAtEnd program.definition := by
  refine ⟨?_, move.finished doneAtEnd.finished⟩
  cases move with
  | begin unstarted =>
      rw [← (tidy.unstarted unstarted).2] at initially
      exact fun _ => initially
  | stop =>
      intro running
      rw [Interpreter.lifecycle_stop] at running
      split at running <;> cases running
  | publish isPublished =>
      have lifecycle := lifecycle_of_commit isPublished
      intro running
      rw [running] at lifecycle
      split at lifecycle
      · cases lifecycle
      · next unfinished => exact Bool.eq_false_iff.2 unfinished
  | abandon =>
      intro running
      simp only [Interpreter.abandonStart, Interpreter.release] at running
      split at running
      · cases running
      · next halted => exact absurd running halted
  | _ => exact doneAtEnd.unfinished

/-- A machine that does not begin where it ends is done exactly there. -/
theorem RunsTo.doneAtEnd {start : Execution σ Listener} {chronicle : Chronicle Listener}
    (run : program.RunsTo start chronicle execution) (situated : program.Situated phase start)
    (unstarted : start.interpreter.lifecycle = .notStarted)
    (initially : Configuration.isInFinal program.definition.toStateTree
      program.definition.initialConfiguration StateTree.root = false) :
    execution.interpreter.DoneAtEnd program.definition := by
  obtain ⟨last, timers, runsToo, inRange, isInterpreter⟩ := run.exists_inRange situated
  rw [isInterpreter]
  have doneAtEnd : start.interpreter.DoneAtEnd program.definition :=
    ⟨fun running => (by cases unstarted.symm.trans running),
      fun isDone => (by cases unstarted.symm.trans isDone)⟩
  obtain ⟨_, _, stillSo⟩ := runsToo.induct (fun _ i _ => i.DoneAtEnd program.definition) inRange
    situated doneAtEnd fun settled move stillSo => move.doneAtEnd settled.tidy initially stillSo
  exact ⟨stillSo.unfinished, stillSo.finished⟩

/-- A machine always shows what was committed last. -/
theorem RunsTo.shown {start : Execution σ Listener} {chronicle : Chronicle Listener}
    (run : program.RunsTo start chronicle execution) (situated : program.Situated phase start)
    (shown : start.interpreter.Shown program.definition) :
    execution.interpreter.Shown program.definition := by
  obtain ⟨last, timers, runsToo, inRange, isInterpreter⟩ := run.exists_inRange situated
  obtain ⟨_, _, stillShown⟩ := runsToo.induct (fun _ i _ => i.Shown program.definition) inRange
    situated shown fun _ move shown => move.shown shown
  rw [isInterpreter]
  exact ⟨stillShown.value, stillShown.context⟩

end Program

end Statechart
