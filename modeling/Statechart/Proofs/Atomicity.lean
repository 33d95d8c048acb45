import Statechart.Proofs.Farewell

/-!
# Atomicity

No half-done step is ever seen. While a step is in progress its actions change working copies
only: whoever looks, from inside the step or not, sees the configuration, the context, the
history and the last snapshot from before the step began. Only a stop shows at once, in the
status. So at every point of a run the last snapshot tells what has been committed last.
-/

namespace Statechart

variable {σ Listener : Type}

open Chronicle

namespace Interpreter

variable {i j after : Interpreter Listener} {definition : Definition}

/-- What has been committed is the same. -/
structure Keeps (before after : Interpreter Listener) : Prop where
  configuration : after.configuration = before.configuration
  context : after.context = before.context
  history : after.history = before.history

theorem Keeps.trans (first : i.Keeps j) (second : j.Keeps after) : i.Keeps after where
  configuration := second.configuration.trans first.configuration
  context := second.context.trans first.context
  history := second.history.trans first.history

theorem Keeps.of_stop (i : Interpreter Listener) : i.Keeps i.stop.1 := by
  cases lifecycle : i.lifecycle <;> cases busy : i.busy <;>
    exact ⟨by simp [stop, lifecycle, busy], by simp [stop, lifecycle, busy],
      by simp [stop, lifecycle, busy]⟩

/-- The interpreter shows what has been committed last, and how far it has come in its life. -/
structure Faithful (definition : Definition) (committed : Snapshot)
    (interpreter : Interpreter Listener) : Prop where
  shown : interpreter.Shown definition
  value : interpreter.snapshot.value = committed.value
  context : interpreter.snapshot.context = committed.context
  status : interpreter.snapshot.status = interpreter.lifecycle.status

theorem Faithful.withTimers {committed : Snapshot} (faithful : i.Faithful definition committed)
    (timers : Timers) : Faithful definition committed { i with timers } :=
  ⟨⟨faithful.shown.value, faithful.shown.context⟩, faithful.value, faithful.context,
    faithful.status⟩

/-- Interpreters that show what is committed differ in their snapshots by the status only, if
the same is committed in both. -/
theorem Keeps.snapshot {earlier later : Snapshot} (keeps : i.Keeps j)
    (before : i.Faithful definition earlier) (after : j.Faithful definition later) :
    j.snapshot = { i.snapshot with status := j.lifecycle.status } := by
  have value : j.snapshot.value = i.snapshot.value := by
    rw [after.shown.value, before.shown.value, keeps.configuration]
  have context : j.snapshot.context = i.snapshot.context := by
    rw [after.shown.context, before.shown.context, keeps.context]
  cases isLast : j.snapshot with
  | mk _ _ _ =>
      have status := after.status
      simp_all

/-- A machine is running, or it has not been started, exactly if its status is active. -/
theorem Faithful.active_iff {committed : Snapshot} (faithful : i.Faithful definition committed) :
    i.snapshot.status = .active ↔ i.isRunning = true ∨ i.lifecycle = .notStarted := by
  rw [faithful.status]
  cases lifecycle : i.lifecycle <;> simp [isRunning, lifecycle, Lifecycle.status]

end Interpreter

namespace RunningStep

variable {step earlier opening : RunningStep (Work σ Listener)}

/-- A step goes on: some of its actions have run, and nothing about it has changed but its
working copies. -/
structure Continues (earlier step : RunningStep (Work σ Listener)) : Prop where
  origin : step.origin = earlier.origin
  event : step.event = earlier.event
  plan : step.plan = earlier.plan
  pending : step.pending <:+ earlier.pending

theorem Continues.refl (step : RunningStep (Work σ Listener)) : step.Continues step :=
  ⟨rfl, rfl, rfl, List.suffix_rfl⟩

theorem Continues.trans (first : opening.Continues earlier) (second : earlier.Continues step) :
    opening.Continues step where
  origin := second.origin.trans first.origin
  event := second.event.trans first.event
  plan := second.plan.trans first.plan
  pending := second.pending.trans first.pending

/-- None of the actions of the step has run yet. -/
structure Opens (step : RunningStep (Work σ Listener)) : Prop where
  pending : step.pending = step.plan.invocations
  raised : step.raised = []

end RunningStep

namespace Program

variable {program : Program σ Listener} {now : Timestamp} {phase next : Phase σ Listener}
variable {i after : Interpreter Listener} {happenings chronicle : Chronicle Listener}
variable {step : RunningStep (Work σ Listener)} {committed : Snapshot}

/-- The last snapshot tells of what has been committed, and of nothing else. -/
theorem Move.exhibits (move : program.Move now phase i happenings next after)
    (value : i.snapshot.value = committed.value)
    (context : i.snapshot.context = committed.context) :
    after.snapshot.value = (latest committed happenings).value ∧
      after.snapshot.context = (latest committed happenings).context := by
  cases move with
  | stop =>
      cases lifecycle : i.lifecycle <;> cases busy : i.busy <;>
        simp [Interpreter.stop, Interpreter.requested, lifecycle, busy, latest,
          Happening.committed?, value, context]
  | publish isPublished =>
      simp [latest, Interpreter.commitments_ended isPublished,
        Interpreter.snapshot_commitment isPublished]
  | _ => exact ⟨value, context⟩

theorem Move.faithful (move : program.Move now phase i happenings next after)
    (faithful : i.Faithful program.definition committed) :
    after.Faithful program.definition (latest committed happenings) := by
  obtain ⟨value, context⟩ := move.exhibits faithful.value faithful.context
  exact ⟨move.shown faithful.shown, value, context, move.status faithful.status⟩

theorem Begins.faithful (begins : program.Begins i) :
    i.Faithful program.definition i.snapshot := by
  refine ⟨begins.shown, rfl, rfl, ?_⟩
  obtain ⟨_, _, _, _, rfl⟩ := begins.exists_assemble
  rfl

/-- A step that is in progress after a move has been so before, or it begins. Nothing is
committed, and the machine runs on unless it is stopped. -/
theorem Move.underway (move : program.Move now phase i happenings next after)
    (isStep : next = .step step) :
    commitments happenings = [] ∧ i.Keeps after ∧
      ((∃ earlier, phase = .step earlier ∧ earlier.Continues step ∧
          (i.lifecycle = .running ∨ i.lifecycle = .stopped →
            after.lifecycle = .running ∨ after.lifecycle = .stopped)) ∨
        ((∀ earlier, phase ≠ .step earlier) ∧ step.Opens ∧
          (i.lifecycle = .notStarted ∨ i.lifecycle = .running) ∧ after.lifecycle = .running)) := by
  have same : i.Keeps i := ⟨rfl, rfl, rfl⟩
  cases move with
  | act _ sameOrigin sameEvent samePlan later =>
      cases isStep
      exact ⟨rfl, same, .inl ⟨_, rfl, ⟨sameOrigin, sameEvent, samePlan, later⟩, id⟩⟩
  | begin unstarted resume =>
      cases isStep
      exact ⟨rfl, ⟨rfl, rfl, rfl⟩, .inr ⟨by simp, ⟨rfl, rfl⟩, .inl unstarted, rfl⟩⟩
  | take isQueue isRunning found =>
      cases isStep
      have wasRunning : i.lifecycle = .running := by simpa [Interpreter.isRunning] using isRunning
      have opens : step.Opens := by
        rw [begun_of_stepOf? found]
        exact ⟨rfl, rfl⟩
      exact ⟨rfl, ⟨rfl, rfl, rfl⟩, .inr ⟨by simp, opens, .inr wasRunning, wasRunning⟩⟩
  | stop =>
      have earlier : phase = .step step := by
        cases told : i.stop.2 with
        | none => simpa [told, Phase.bidding] using isStep
        | some notice => simp [told, Phase.bidding] at isStep
      refine ⟨commitments_stop, Interpreter.Keeps.of_stop i, .inl ⟨step, earlier, .refl step, fun lasts => ?_⟩⟩
      rcases lasts with lifecycle | lifecycle <;> simp [i.lifecycle_stop, lifecycle]
  | release => cases putOff : i.release.2 <;> simp [Phase.bidding, putOff] at isStep
  | abandon => cases putOff : i.abandonStart.2 <;> simp [Phase.bidding, putOff] at isStep
  | quiet | enter | subscribe | unsubscribe | settle =>
      exact ⟨rfl, ⟨rfl, rfl, rfl⟩, .inl ⟨step, isStep, .refl step, id⟩⟩
  | _ => cases isStep

section Run

variable {start before execution : Execution σ Listener}

/-- A step that is in progress began at an earlier point of a run. None was in progress then,
and its actions were all still to run. -/
structure Underway (program : Program σ Listener) (step : RunningStep (Work σ Listener))
    (before after : Execution σ Listener) : Prop where
  idle : ∀ other, ¬ before.Performs other
  opening : ∃ next opening, program.Step before next ∧ next.Performs opening ∧ opening.Opens ∧
    opening.Continues step
  /-- Nothing has been committed since. -/
  uncommitted : ∃ chronicle, program.RunsTo before chronicle after ∧ commitments chronicle = []
  keeps : before.interpreter.Keeps after.interpreter
  unended : before.interpreter.lifecycle = .notStarted ∨ before.interpreter.lifecycle = .running
  lifecycle : after.interpreter.lifecycle = .running ∨ after.interpreter.lifecycle = .stopped

/-- A machine is active before a step begins. -/
theorem Underway.active (underway : program.Underway step before execution)
    (status : before.interpreter.snapshot.status = before.interpreter.lifecycle.status) :
    before.interpreter.snapshot.status = .active := by
  rw [status]
  rcases underway.unended with unended | unended <;> simp [unended, Lifecycle.status]

theorem Situated.idle (situated : program.Situated .outside execution) :
    ¬ execution.Performs step := by
  intro performs
  cases situated.arranged.performs_iff.1 performs

/-- While a step is in progress the clock is within its range. -/
theorem RunsTo.situated_of_performs (run : program.RunsTo start chronicle execution)
    (situated : program.Situated phase start) (performs : execution.Performs step) :
    ∃ current : Phase σ Listener, program.Situated current execution := by
  rcases run.situated situated with ⟨_, isCurrent⟩ | ⟨_, noWork⟩
  · exact isCurrent
  · obtain ⟨work, isThere, _⟩ := performs
    simp [noWork] at isThere

/-- Every step that is in progress is underway since some point of the run. -/
theorem RunsTo.underway (run : program.RunsTo start chronicle execution)
    (situated : program.Situated .outside start) (performs : execution.Performs step) :
    ∃ before earlier, program.RunsTo start earlier before ∧
      program.Underway step before execution := by
  induction run generalizing step with
  | refl => exact absurd performs situated.idle
  | @tail chronicle middle after now run steps ih =>
      obtain ⟨current, isCurrent⟩ := run.situated_before situated steps
      obtain ⟨_, stillSituated⟩ := (run.tail steps).situated_of_performs situated performs
      obtain ⟨next, isNext, move⟩ := isCurrent.advance steps stillSituated.inRange
      obtain ⟨nothing, keeps, goesOn | begins⟩ :=
        move.underway (isNext.arranged.performs_iff.1 performs)
      · obtain ⟨earlier, rfl, continues, lasts⟩ := goesOn
        obtain ⟨before, past, reached, underway⟩ := ih (isCurrent.arranged.performs_iff.2 rfl)
        obtain ⟨next, opening, first, isOpening, opens, sofar⟩ := underway.opening
        obtain ⟨since, onward, uncommitted⟩ := underway.uncommitted
        exact ⟨before, past, reached, underway.idle,
          ⟨next, opening, first, isOpening, opens, sofar.trans continues⟩,
          ⟨_, onward.tail steps, by rw [commitments_append, uncommitted, nothing]; rfl⟩,
          underway.keeps.trans keeps, underway.unended, lasts underway.lifecycle⟩
      · obtain ⟨notBefore, opens, unended, isRunning⟩ := begins
        refine ⟨middle, chronicle, run, fun other isOther => ?_,
          ⟨after, step, ⟨now, steps⟩, performs, opens, .refl step⟩,
          ⟨_, RunsTo.refl.tail steps, nothing⟩, keeps, unended, .inl isRunning⟩
        exact notBefore other (isCurrent.arranged.performs_iff.1 isOther)

/-- Along a run the last snapshot is faithful, whether or not the clock leaves its range. -/
theorem RunsTo.faithful (run : program.RunsTo start chronicle execution)
    (situated : program.Situated phase start)
    (faithful : start.interpreter.Faithful program.definition committed) :
    execution.interpreter.Faithful program.definition (latest committed chronicle) := by
  obtain ⟨last, timers, runs, inRange, same⟩ := run.exists_inRange situated
  obtain ⟨_, _, isFaithful⟩ := runs.induct
    (fun _ i chronicle => i.Faithful program.definition (latest committed chronicle))
    inRange situated faithful
    fun _ move faithful => by
      rw [latest_append]
      exact move.faithful faithful
  rw [same]
  exact isFaithful.withTimers timers

/-- What whoever looks at a point of a run sees of a step that is in progress there. The
configuration, the context and the history are those from before the step. So is the last
snapshot, but that its status tells of a stop at once. -/
structure Unseen (before after : Execution σ Listener) : Prop where
  keeps : before.interpreter.Keeps after.interpreter
  snapshot : after.interpreter.snapshot =
    if after.interpreter.lifecycle = .stopped then
      { before.interpreter.snapshot with status := .stopped }
    else before.interpreter.snapshot

/-- Whatever runs re-enter the machine, the last snapshot shows the state that was committed
last and the status of the machine, and the effects of a step are unseen until it is
committed. -/
theorem half_done_steps_are_unseen {interpreter : Interpreter Listener} {memory : σ}
    {code : Routine σ Listener Unit} (begins : program.Begins interpreter)
    (run : program.RunsTo (.ofClient interpreter memory code) chronicle execution) :
    execution.interpreter.Faithful program.definition (latest interpreter.snapshot chronicle) ∧
      (execution.interpreter.snapshot.status = .active ↔
        execution.interpreter.isRunning = true ∨
          execution.interpreter.lifecycle = .notStarted) ∧
      ∀ step, execution.Performs step → ∃ before earlier,
        program.RunsTo (.ofClient interpreter memory code) earlier before ∧
          program.Underway step before execution ∧ Unseen before execution := by
  have situated : program.Situated .outside (.ofClient interpreter memory code) :=
    situated_ofClient begins
  have faithful := run.faithful situated begins.faithful
  refine ⟨faithful, faithful.active_iff, fun step performs => ?_⟩
  obtain ⟨before, earlier, reached, underway⟩ := run.underway situated performs
  refine ⟨before, earlier, reached, underway, underway.keeps, ?_⟩
  have isFaithful := reached.faithful situated begins.faithful
  rw [underway.keeps.snapshot isFaithful faithful]
  rcases underway.lifecycle with lifecycle | lifecycle
  · simp [lifecycle, Lifecycle.status, ← underway.active isFaithful.status]
  · simp [lifecycle, Lifecycle.status]

end Run

/-- A booth in which whoever dials is cut off: the machine is stopped while it takes a step. -/
def cutOff : Program Unit Bool where
  definition := MachineSpec.booth.resolved
  registry.actions :=
    [("greet", fun call => .done (.ok ⟨call.context, []⟩)),
      ("dial", fun call => do
        let _ ← Routine.request .stop
        return .ok ⟨call.context, []⟩),
      ("pay", fun call => .done (.ok ⟨call.context, []⟩))]
  listen _ _ := .done ()

theorem begins_cutOff : cutOff.Begins (.fresh MachineSpec.booth.resolved none) := .inl ⟨none, by cbv⟩

/-- The action that is called, where nothing else is underway. -/
def called? : List (Work Unit Bool) → Option String
  | [.acting _ call _] => some call.action
  | _ => none

theorem performs_call : ∃ step, (calling.run cutOff default 10).Performs step := by
  have isDialling : called? (calling.run cutOff default 10).work = some "dial" := by cbv
  unfold called? at isDialling
  split at isDialling
  · next step call code isWork =>
    exact ⟨step, _, isWork ▸ List.mem_singleton_self _, .here (.inr ⟨call, code, rfl⟩)⟩
  · cases isDialling

/-- While the call goes on that has been cut off, the booth shows what was committed before. -/
theorem call_is_unseen :
    (calling.run cutOff default 10).interpreter.Faithful cutOff.definition
        (latest (Interpreter.fresh cutOff.definition none : Interpreter Bool).snapshot
          (cutOff.chronicle default 10 calling)) ∧
      ∃ step, (calling.run cutOff default 10).Performs step ∧ ∃ before earlier,
        cutOff.RunsTo calling earlier before ∧
          cutOff.Underway step before (calling.run cutOff default 10) ∧
          Unseen before (calling.run cutOff default 10) := by
  obtain ⟨faithful, _, unseen⟩ :=
    half_done_steps_are_unseen begins_cutOff (runsTo_run default 10 calling)
  obtain ⟨step, performs⟩ := performs_call
  exact ⟨faithful, step, performs, unseen step performs⟩

/-- A call that is cut off is underway still, but the last snapshot is not the one from before
it began: the machine was active then, and now it is stopped. -/
theorem stop_shows_at_once :
    (calling.run cutOff default 10).interpreter.snapshot.status = .stopped ∧
      ∃ step before, (calling.run cutOff default 10).Performs step ∧
        cutOff.Underway step before (calling.run cutOff default 10) ∧
        before.interpreter.snapshot.status = .active := by
  have situated : cutOff.Situated .outside calling := situated_ofClient begins_cutOff
  have run : cutOff.RunsTo calling _ (calling.run cutOff default 10) :=
    runsTo_run default 10 calling
  obtain ⟨step, performs⟩ := performs_call
  obtain ⟨before, _, reached, underway⟩ := run.underway situated performs
  have faithful := reached.faithful situated begins_cutOff.faithful
  exact ⟨by cbv, step, before, performs, underway, underway.active faithful.status⟩

end Program

end Statechart
