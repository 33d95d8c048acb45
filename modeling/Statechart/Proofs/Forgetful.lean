import Statechart.Proofs.Readings
import Statechart.Proofs.Succession

/-!
# Forgetful programs

Code that goes on in the same way whatever the history holds when it looks at the
interpreter. A program of such code does the same with any history, and at any readings of
the clock: small steps commute with a change of the history, into which they push the same
records, up to their dates.
-/

namespace Statechart

variable {σ Listener : Type}

def Interpreter.withHistory (interpreter : Interpreter Listener) (history : History) :
    Interpreter Listener := { interpreter with history }

/-- Answers to a request that differ in the history at most. -/
def Request.Alike : (request : Request Listener) → request.Answer → request.Answer → Prop
  | .look => fun answer other => ∃ history, other = answer.withHistory history
  | .start | .send _ | .stop | .advance _ | .subscribe _ | .unsubscribe _ | .can _ => Eq

/-- Only a look at the interpreter shows the history. -/
theorem Request.eq_of_alike {request : Request Listener} {answer other : request.Answer}
    (unseen : request ≠ .look) (alike : request.Alike answer other) : other = answer := by
  cases request with
  | look => exact absurd rfl unseen
  | _ => exact Eq.symm alike

/-- Code that does not depend on the history it is shown. -/
def Routine.Forgetful {α : Type} : Routine σ Listener α → Prop
  | .done _ => True
  | .read next => ∀ memory, (next memory).Forgetful
  | .write _ next => next.Forgetful
  | .ask request next =>
    (∀ answer, (next answer).Forgetful) ∧
      ∀ answer other, request.Alike answer other → next other = next answer

namespace Routine

variable {α β : Type}

theorem forgetful_ask {request : Request Listener}
    {next : request.Answer → Routine σ Listener α} (unseen : request ≠ .look)
    (forgetful : ∀ answer, (next answer).Forgetful) : (Routine.ask request next).Forgetful :=
  ⟨forgetful, fun _ _ alike => congrArg next (Request.eq_of_alike unseen alike)⟩

theorem forgetful_request {request : Request Listener} (unseen : request ≠ .look) :
    (Routine.request request : Routine σ Listener request.Answer).Forgetful :=
  forgetful_ask unseen fun _ => trivial

theorem forgetful_pure (result : α) : (pure result : Routine σ Listener α).Forgetful := trivial

theorem Forgetful.bind {code : Routine σ Listener α} {next : α → Routine σ Listener β}
    (forgetful : code.Forgetful) (onward : ∀ result, (next result).Forgetful) :
    (code >>= next).Forgetful := by
  induction code with
  | done result => exact onward result
  | read other ih => exact fun memory => ih memory (forgetful memory)
  | write memory other ih => exact ih forgetful
  | ask request other ih =>
      exact ⟨fun answer => ih answer (forgetful.1 answer), fun answer same alike =>
        congrArg (·.bind next) (forgetful.2 answer same alike)⟩

theorem Forgetful.continues {code next : Routine σ Listener α} (forgetful : code.Forgetful)
    (onward : code.Continues next) : next.Forgetful := by
  cases onward with
  | read next memory => exact forgetful memory
  | write memory next => exact forgetful
  | ask request next answer => exact forgetful.1 answer

end Routine

structure Program.Forgetful (program : Program σ Listener) : Prop where
  actions : ∀ name action, program.registry.action? name = some action →
    ∀ call, (action call).Forgetful
  listeners : ∀ listener snapshot, (program.listen listener snapshot).Forgetful

/-- All code is forgetful. -/
def Terms.forgetful : Terms σ Listener where
  client := Routine.Forgetful
  listening := Routine.Forgetful
  acting := Routine.Forgetful

/-- A forgetful program runs forgetful code only. -/
theorem Program.Forgetful.hereditary {program : Program σ Listener}
    (isForgetful : program.Forgetful) : Terms.forgetful.Hereditary program where
  client _ _ := Routine.Forgetful.continues
  listening _ _ := Routine.Forgetful.continues
  acting _ _ := Routine.Forgetful.continues
  told := isForgetful.listeners
  called := isForgetful.actions

namespace Execution

/-- All code of the work in progress is forgetful. -/
def Forgetful (execution : Execution σ Listener) : Prop := execution.Keeps .forgetful

def withHistory (execution : Execution σ Listener) (history : History) : Execution σ Listener :=
  { execution with interpreter := execution.interpreter.withHistory history }

end Execution

/-- What is forgetful stays forgetful. -/
theorem Execution.Forgetful.next {program : Program σ Listener} {now : Timestamp}
    {execution next : Execution σ Listener} (forgetful : execution.Forgetful)
    (isForgetful : program.Forgetful) (steps : execution.step? program now = some next) :
    next.Forgetful :=
  Execution.Keeps.next forgetful isForgetful.hereditary (fun _ _ _ _ _ _ _ _ => trivial) steps

namespace Interpreter

variable {interpreter : Interpreter Listener} {history : History}

@[simp]
theorem isRunning_withHistory :
    (interpreter.withHistory history).isRunning = interpreter.isRunning := rfl

@[simp]
theorem busy_enqueue_withHistory {signal : Signal} :
    ((interpreter.withHistory history).enqueue signal).busy = interpreter.busy := rfl

@[simp]
theorem now_withHistory : (interpreter.withHistory history).now = interpreter.now := rfl

@[simp]
theorem timers_withHistory : (interpreter.withHistory history).timers = interpreter.timers := rfl

@[simp]
theorem requested_withHistory {definition : Definition} {request : Request Listener} :
    (interpreter.withHistory history).requested definition request =
      interpreter.requested definition request := by
  cases request <;> rfl

@[simp]
theorem fired_withHistory {limit : Duration} :
    (interpreter.withHistory history).fired limit = interpreter.fired limit := rfl

theorem stop_withHistory : (interpreter.withHistory history).stop =
    (interpreter.stop.1.withHistory history, interpreter.stop.2) := by
  cases lifecycle : interpreter.lifecycle <;> cases busy : interpreter.busy <;>
    simp [stop, withHistory, lifecycle, busy]

theorem abandonStart_withHistory : (interpreter.withHistory history).abandonStart =
    (interpreter.abandonStart.1.withHistory history, interpreter.abandonStart.2) := rfl

end Interpreter

namespace Execution

variable {program : Program σ Listener} {execution : Execution σ Listener} {history : History}
variable {rest : List (Work σ Listener)} {step : RunningStep (Work σ Listener)} {now : Timestamp}

theorem deliver_withHistory {signal : Signal}
    {resume : Except InterpreterError Delivery → Work σ Listener} :
    (execution.withHistory history).deliver signal resume rest =
      (execution.deliver signal resume rest).withHistory history := by
  have busy_enqueue :
      (execution.interpreter.enqueue signal).busy = execution.interpreter.busy := rfl
  cases running : execution.interpreter.isRunning <;> cases busy : execution.interpreter.busy <;>
    simp [deliver, withHistory, running, busy_enqueue, busy] <;> rfl

theorem meet_withHistory {request : Request Listener} {resume : request.Answer → Work σ Listener}
    (alike : ∀ answer other, request.Alike answer other → resume other = resume answer) :
    (execution.withHistory history).meet program rest request resume =
      (execution.meet program rest request resume).withHistory history := by
  cases request with
  | start =>
      by_cases started : execution.interpreter.lifecycle = .notStarted <;>
        simp [meet, withHistory, Interpreter.withHistory, started]
  | send event => exact deliver_withHistory
  | stop => simp only [meet, withHistory, Interpreter.stop_withHistory]
  | advance span =>
      cases running : execution.interpreter.isRunning <;>
        cases sum : execution.interpreter.now.add? span <;>
        simp [meet, withHistory, running, sum, overflow]
  | subscribe listener => rfl
  | unsubscribe number => rfl
  | can event => rfl
  | look =>
      have sameWork : resume (execution.interpreter.withHistory history) =
          resume execution.interpreter := alike _ _ ⟨history, rfl⟩
      simp only [meet, withHistory, sameWork]

theorem proceed_withHistory {α : Type} {code : Routine σ Listener α}
    {around : Routine σ Listener α → Work σ Listener} {finish other : α → Execution σ Listener}
    (forgetful : code.Forgetful)
    (finished : ∀ result, other result = (finish result).withHistory history) :
    (execution.withHistory history).proceed program rest around other code =
      (execution.proceed program rest around finish code).withHistory history := by
  cases code with
  | done result => exact finished result
  | read next => rfl
  | write memory next => rfl
  | ask request next =>
      exact meet_withHistory fun answer other alike => by rw [forgetful.2 answer other alike]

theorem drainNext_withHistory {drain : Drain (Work σ Listener)} :
    (execution.withHistory history).drainNext program rest drain =
      (execution.drainNext program rest drain).withHistory history := by
  cases isQueue : execution.interpreter.queue with
  | nil => simp [drainNext, withHistory, Interpreter.withHistory, isQueue, Interpreter.release]
  | cons signal queue =>
      let interpreter := { execution.interpreter with queue }
      have sameRunning : (interpreter.withHistory history).isRunning = interpreter.isRunning := rfl
      have sameStep : stepOf? program (interpreter.withHistory history) drain signal =
          stepOf? program interpreter drain signal := by
        cases signal <;> rfl
      have sameQueue :
          (execution.withHistory history).interpreter.queue = signal :: queue := isQueue
      have popped : { (execution.withHistory history).interpreter with queue } =
          interpreter.withHistory history := rfl
      simp only [drainNext, isQueue, sameQueue, popped, sameRunning, sameStep]
      cases interpreter.isRunning <;>
        cases stepOf? program interpreter drain signal <;> rfl

theorem actionDone_withHistory {call : Invocation} {result : Except String ActionEffect} :
    (execution.withHistory history).actionDone program rest step call result =
      (execution.actionDone program rest step call result).withHistory history := by
  cases result with
  | ok effect => rfl
  | error reason =>
      cases origin : step.origin with
      | start resume =>
          simp only [actionDone, abort, origin, withHistory, Interpreter.abandonStart_withHistory]
      | signal fired drain =>
          simp only [actionDone, abort, origin]
          rfl

theorem advanceNext_withHistory {limit : Duration} {fired : Nat}
    {resume : Except InterpreterError Nat → Work σ Listener} :
    (execution.withHistory history).advanceNext rest limit fired resume =
      (execution.advanceNext rest limit fired resume).withHistory history := by
  cases running : execution.interpreter.isRunning with
  | false =>
      simp only [advanceNext, withHistory, Interpreter.isRunning_withHistory, running]
      rfl
  | true =>
      simp only [advanceNext, withHistory, Interpreter.isRunning_withHistory, running,
        Interpreter.timers_withHistory, if_true]
      cases execution.interpreter.timers.pop? limit with
      | none => rfl
      | some popped =>
          exact @deliver_withHistory _ _
            { execution with
              interpreter := { execution.interpreter with timers := popped.2 } } history rest _ _

end Execution

namespace Commit

/-- What becomes of a step, with another history. -/
def withHistory (history : History) : Commit Listener → Commit Listener
  | .discarded => .discarded
  | .published interpreter => .published (interpreter.withHistory history)
  | .overflow interpreter => .overflow (interpreter.withHistory history)

end Commit

namespace Interpreter

variable {definition : Definition} {interpreter : Interpreter Listener} {now : Timestamp}
variable {step : StepResult}

theorem records_ended {published : Interpreter Listener}
    (isPublished : interpreter.commit definition now step = .published published) :
    Chronicle.records (interpreter.ended definition now step) =
      if step.recorded then
        [⟨step.event, interpreter.snapshot.value,
          Configuration.value definition.toStateTree published.configuration, now⟩]
      else [] := by
  rw [Chronicle.records, commitments_ended isPublished, commitment]
  cases step.recorded <;> simp

/-- Nothing comes of a step that is not published. -/
theorem ended_eq_nil
    (unpublished : ∀ published, interpreter.commit definition now step ≠ .published published) :
    interpreter.ended definition now step = [] := by
  unfold ended
  split
  · next published isPublished => exact absurd isPublished (unpublished published)
  · rfl
  · rfl

/-- A commit pushes the record of the step into the history, whichever it is. -/
theorem commit_withHistory (history : History) (now other : Timestamp) :
    (interpreter.withHistory history).commit definition other step =
    (interpreter.commit definition now step).withHistory
      (history.pushAll (Chronicle.records (interpreter.ended definition other step))) := by
  have sameLifecycle : (interpreter.withHistory history).lifecycle = interpreter.lifecycle := rfl
  by_cases running : interpreter.lifecycle = .running
  · cases after : interpreter.timersAfter definition step with
    | mk timers covered =>
        have sameTimers : (interpreter.withHistory history).timersAfter definition step =
            (timers, covered) := after
        cases covered with
        | false =>
            have nothing : interpreter.ended definition other step = [] :=
              ended_eq_nil (by simp [commit, running, after])
            simp only [commit, sameLifecycle, running, sameTimers, after, nothing, ne_eq,
              not_true_eq_false, if_false]
            rfl
        | true =>
            obtain ⟨published, isPublished⟩ :
                ∃ published, interpreter.commit definition other step = .published published := by
              simp [commit, running, after]
            rw [records_ended isPublished, (published_of_commit isPublished).configuration]
            simp only [commit, sameLifecycle, running, sameTimers, after, ne_eq,
              not_true_eq_false, if_false]
            cases step.recorded <;> rfl
  · simp [commit, sameLifecycle, running, Commit.withHistory]

theorem ended_withHistory (history : History) :
    (interpreter.withHistory history).ended definition now step =
      interpreter.ended definition now step := by
  rw [ended, commit_withHistory history now]
  cases isCommit : interpreter.commit definition now step <;>
    simp only [ended, Commit.withHistory, isCommit]
  rfl

theorem commit_at_other (now other : Timestamp) : interpreter.commit definition other step =
    (interpreter.commit definition now step).withHistory
      (interpreter.history.pushAll
        (Chronicle.records (interpreter.ended definition other step))) :=
  commit_withHistory interpreter.history now other

/-- At another reading a step commits the same, but for the date of its record. -/
theorem undated_ended (now other : Timestamp) :
    Chronicle.undated (interpreter.ended definition other step) =
      Chronicle.undated (interpreter.ended definition now step) := by
  have same : interpreter.commit definition other step = _ := commit_at_other now other
  cases isCommit : interpreter.commit definition now step with
  | published after =>
      rw [isCommit] at same
      rw [ended_of_published isCommit, ended_of_published same]
      cases recorded : step.recorded <;>
        simp [Chronicle.undated, Happening.undated, Commitment.undated, StepRecord.undated,
          commitment, recorded, withHistory] <;> rfl
  | discarded =>
      rw [isCommit] at same
      rw [ended_eq_nil (by simp [same, Commit.withHistory]), ended_eq_nil (by simp [isCommit])]
  | overflow after =>
      rw [isCommit] at same
      rw [ended_eq_nil (by simp [same, Commit.withHistory]), ended_eq_nil (by simp [isCommit])]

end Interpreter

namespace Program

open Execution

variable {program : Program σ Listener} {execution : Execution σ Listener} {history : History}
variable {now other : Timestamp}

@[simp]
theorem happenings_withHistory :
    program.happenings now (execution.withHistory history) = program.happenings now execution := by
  unfold happenings
  simp only [withHistory, Interpreter.requested_withHistory, Interpreter.ended_withHistory,
    Interpreter.fired_withHistory]
  rfl

/-- What happens in a small step does not depend on the reading of the clock, but for the
date of a record. -/
theorem undated_happenings (now other : Timestamp) :
    Chronicle.undated (program.happenings other execution) =
      Chronicle.undated (program.happenings now execution) := by
  by_cases isReady : ∃ step, execution.Ready step
  · obtain ⟨step, isReady⟩ := isReady
    rw [happenings_of_ready isReady, happenings_of_ready isReady]
    exact Interpreter.undated_ended now other
  · rw [(happenings_of_unready now other (not_exists.1 isReady)).2]

/-- Committing a step commutes with a change of the history. -/
theorem finish_withHistory {rest : List (Work σ Listener)}
    {step : RunningStep (Work σ Listener)} :
    (execution.withHistory history).finish program other rest step =
      (execution.finish program now rest step).withHistory (history.pushAll
        (Chronicle.records
          (execution.interpreter.ended program.definition other step.result))) := by
  have commits : (execution.withHistory history).interpreter.commit program.definition other
      step.result = _ := Interpreter.commit_withHistory history now other
  have atOther : execution.interpreter.commit program.definition other step.result = _ :=
    Interpreter.commit_at_other now other
  simp only [finish, commits]
  cases isCommit : execution.interpreter.commit program.definition now step.result with
  | discarded =>
      rw [isCommit] at atOther
      rw [Interpreter.ended_eq_nil (by simp [atOther, Commit.withHistory])]
      rfl
  | published interpreter => rfl
  | overflow interpreter => rfl

/-- Small steps of forgetful code commute with a change of the history, whatever the
readings of the clock. -/
theorem step?_withHistory (history : History) (now other : Timestamp)
    (forgetful : execution.Forgetful) :
    (execution.withHistory history).step? program other =
      (execution.step? program now).map fun next => next.withHistory
        (history.pushAll (Chronicle.records (program.happenings other execution))) := by
  by_cases isReady : ∃ step, execution.Ready step
  · obtain ⟨step, isReady⟩ := isReady
    rw [happenings_of_ready isReady]
    obtain ⟨nothingPending, rest, isWork⟩ := isReady
    have sameWork : (execution.withHistory history).work = .stepping step :: rest := isWork
    simp only [step?, isWork, sameWork, stepNext, nothingPending, Option.map_some]
    exact congrArg some finish_withHistory
  · have nothing : Chronicle.records (program.happenings other execution) = [] := by
      rw [Chronicle.records,
        (happenings_of_unready other other (not_exists.1 isReady)).1]
      rfl
    rw [nothing]
    cases isWork : execution.work with
    | nil => simp [step?, withHistory, isWork]
    | cons work rest =>
        have sameWork : (execution.withHistory history).work = work :: rest := isWork
        rw [Execution.Forgetful, Execution.Keeps, isWork, List.forall_mem_cons] at forgetful
        simp only [step?, isWork, sameWork]
        cases forgetful.1 with
        | client isCode => exact congrArg some (proceed_withHistory isCode fun _ => rfl)
        | listening isCode => exact congrArg some (proceed_withHistory isCode fun _ => rfl)
        | notifying subscribers snapshot => cases subscribers <;> rfl
        | draining => exact congrArg some drainNext_withHistory
        | @stepping step =>
            cases pending : step.pending with
            | nil => exact absurd ⟨step, pending, rest, isWork⟩ isReady
            | cons call pending =>
                simp only [stepNext, pending]
                cases program.registry.action? call.action <;> rfl
        | acting call isCode =>
            exact congrArg some (proceed_withHistory isCode fun _ => actionDone_withHistory)
        | advancing => exact congrArg some advanceNext_withHistory

/-- Along any readings of the clock, and with any history, forgetful code does the same: the
history takes the records of what happens, and these are the same up to their dates. -/
theorem runAt_withHistory {readings others : List Timestamp} (history : History)
    (isForgetful : program.Forgetful) (forgetful : execution.Forgetful)
    (sameLength : others.length = readings.length) :
    (execution.withHistory history).runAt program others =
        (execution.runAt program readings).withHistory (history.pushAll
          (Chronicle.records (program.chronicleAt others (execution.withHistory history)))) ∧
      Chronicle.undated (program.chronicleAt others (execution.withHistory history)) =
        Chronicle.undated (program.chronicleAt readings execution) := by
  induction readings generalizing execution history others with
  | nil =>
      obtain rfl := List.length_eq_zero_iff.1 sameLength
      exact ⟨rfl, rfl⟩
  | cons now readings ih =>
      obtain ⟨other, others, rfl⟩ := List.exists_cons_of_length_eq_add_one sameLength
      have commutes : (execution.withHistory history).step? program other = _ :=
        step?_withHistory history now other forgetful
      cases steps : execution.step? program now with
      | none =>
          rw [steps] at commutes
          simp only [runAt, chronicleAt, steps, commutes]
          exact ⟨rfl, rfl⟩
      | some next =>
          rw [steps] at commutes
          obtain ⟨sameEnd, sameChronicle⟩ := ih _ (forgetful.next isForgetful steps)
            (Nat.succ_inj.1 sameLength)
          rw [runAt_cons steps, chronicleAt_cons steps, runAt_cons commutes,
            chronicleAt_cons commutes, sameEnd, happenings_withHistory, Chronicle.records_append,
            Chronicle.undated_append, Chronicle.undated_append, sameChronicle,
            undated_happenings now other]
          exact ⟨by rw [History.pushAll_append], rfl⟩

/-- The history takes the records of the steps that take effect. -/
theorem history_runAt (isForgetful : program.Forgetful) (forgetful : execution.Forgetful)
    (readings : List Timestamp) :
    (execution.runAt program readings).interpreter.history =
      execution.interpreter.history.pushAll
        (Chronicle.records (program.chronicleAt readings execution)) :=
  congrArg (fun execution => execution.interpreter.history)
    (runAt_withHistory execution.interpreter.history isForgetful forgetful rfl).1

end Program

end Statechart
