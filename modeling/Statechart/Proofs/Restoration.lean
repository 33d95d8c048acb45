import Statechart.Proofs.BoundedHistory
import Statechart.Proofs.Notification
import Statechart.Proofs.RoundTrip

/-!
# Restoration

What a checkpoint saves is all that an idle interpreter is, but for its timers and its
subscribers. In every run the last snapshot shows what was committed last, a machine that runs
has not come to its end, and the history is within its bound, so restoring takes nothing away.
-/

namespace Statechart

variable {σ Listener : Type}

theorem History.ext {history other : History} (sameRecords : history.records = other.records)
    (sameLimit : history.limit = other.limit) : history = other := by
  cases history
  cases other
  cases sameRecords
  cases sameLimit
  rfl

namespace Interpreter

variable {history : History} {limit : Option UInt64} {record : StepRecord}

theorem boundHistory_eq_self_iff {limit : UInt64} :
    boundHistory (some limit) history = history ↔
      history.limit = some limit ∧ history.records.length ≤ limit.toNat := by
  have sameLimit : (boundHistory (some limit) history).limit = some limit := by
    simp [boundHistory, History.bounded]
  have sameRecords : (boundHistory (some limit) history).records =
      history.records.drop (history.records.length - limit.toNat) :=
    History.records_bounded_pushAll limit
  constructor
  · intro same
    rw [same] at sameLimit sameRecords
    have sameLength := congrArg List.length sameRecords
    rw [List.length_drop] at sameLength
    exact ⟨sameLimit, by omega⟩
  · rintro ⟨isLimit, few⟩
    rw [Nat.sub_eq_zero_of_le few, List.drop_zero] at sameRecords
    exact History.ext sameRecords (sameLimit.trans isLimit.symm)

theorem boundHistory_boundHistory :
    boundHistory limit (boundHistory limit history) = boundHistory limit history := by
  cases limit with
  | none => rfl
  | some limit =>
      rw [boundHistory_eq_self_iff]
      constructor
      · simp [boundHistory, History.bounded]
      · rw [boundHistory, History.records_bounded_pushAll, List.length_drop]
        omega

theorem boundHistory_push (kept : boundHistory limit history = history) :
    boundHistory limit (history.push record) = history.push record := by
  cases limit with
  | none => rfl
  | some limit =>
      obtain ⟨isLimit, few⟩ := boundHistory_eq_self_iff.1 kept
      rw [boundHistory_eq_self_iff, History.limit_push]
      refine ⟨isLimit, ?_⟩
      rw [History.push, isLimit]
      by_cases isZero : limit = 0
      · simpa [isZero] using few
      · have positive : 0 < limit.toNat := by
          rw [Nat.pos_iff_ne_zero]
          exact fun same => isZero (UInt64.toNat_inj.1 same)
        simp only [isZero, if_false, List.length_append, List.length_drop, List.length_singleton]
        omega

end Interpreter

namespace Interpreter

/-- A machine that runs on after a step has not come to its end. -/
theorem unfinished_of_commit {definition : Definition} {now : Timestamp} {step : StepResult}
    {interpreter published : Interpreter Listener}
    (isPublished : interpreter.commit definition now step = .published published)
    (running : published.lifecycle = .running) :
    Configuration.isInFinal definition.toStateTree published.configuration StateTree.root =
      false := by
  unfold commit at isPublished
  split at isPublished
  · cases isPublished
  · split at isPublished
    · cases isPublished
    · cases isPublished
      refine Bool.eq_false_iff.2 fun finished => ?_
      have finished : Configuration.isInFinal definition.toStateTree step.plan.configuration
          StateTree.root = true := finished
      simp [finished] at running

end Interpreter

namespace Program

variable {program : Program σ Listener} {limit : Option UInt64} {checkpoint : Checkpoint}
variable {interpreter : Interpreter Listener}

/-- Where a machine resumes whose status and configuration were saved. -/
def resumes (program : Program σ Listener) (status : Status) (configuration : Configuration) :
    Lifecycle :=
  if Lifecycle.resumed status = .running ∧
      Configuration.isInFinal program.definition.toStateTree configuration StateTree.root then .done
  else Lifecycle.resumed status

/-- A checkpoint can be restored if it is one of the same machine and in the present version,
and its value describes a configuration. -/
theorem restore_eq_ok_iff :
    program.restore limit checkpoint = .ok interpreter ↔
      checkpoint.version = checkpointVersion ∧
      checkpoint.machine = program.definition.machineId ∧
      program.registry.validate program.definition = .ok () ∧
      ∃ configuration,
        Configuration.ofValue program.definition.toStateTree checkpoint.value = .ok configuration ∧
        interpreter = .assemble program.definition
          (program.resumes checkpoint.status configuration) configuration checkpoint.context
          (Interpreter.boundHistory limit checkpoint.history) := by
  unfold restore Checkpoint.checkVersion resumes
  by_cases sameVersion : checkpoint.version = checkpointVersion
  · by_cases sameMachine : checkpoint.machine = program.definition.machineId
    · cases valued : Configuration.ofValue program.definition.toStateTree checkpoint.value with
      | error error => simp [sameVersion, sameMachine, valued, Except.mapError, bind, Except.bind]
      | ok configuration =>
          cases valid : program.registry.validate program.definition with
          | error error =>
              simp [sameVersion, sameMachine, valued, valid, Except.mapError, bind, Except.bind]
          | ok _ =>
              simp only [sameVersion, sameMachine, valued, valid, Except.mapError, bind,
                Except.bind, pure, Except.pure, if_true, ne_eq, not_true_eq_false, if_false,
                Except.ok.injEq, true_and, exists_eq_left']
              exact eq_comm
    · simp [sameVersion, sameMachine, bind, Except.bind, throw, throwThe, MonadExceptOf.throw]
  · simp [sameVersion, bind, Except.bind]

/-- The last snapshot shows what was committed last and how the machine fares; a machine that
runs has not come to its end, unless its start is in progress; the history is within its
bound. -/
structure Restorable (program : Program σ Listener) (limit : Option UInt64)
    (phase : Phase σ Listener) (i : Interpreter Listener) : Prop where
  shown : i.Shown program.definition
  status : i.snapshot.status = i.lifecycle.status
  unfinished : i.lifecycle = .running → phase.isStarting = false →
    Configuration.isInFinal program.definition.toStateTree i.configuration StateTree.root = false
  bounded : Interpreter.boundHistory limit i.history = i.history

variable {now : Timestamp} {phase next : Phase σ Listener} {i after : Interpreter Listener}
variable {happenings : Chronicle Listener}

theorem Restorable.publish {step : RunningStep (Work σ Listener)}
    (restorable : program.Restorable limit phase i)
    (isPublished : i.commit program.definition now step.result = .published after) :
    program.Restorable limit next after := by
  have published := Interpreter.published_of_commit isPublished
  refine ⟨⟨by simp [published.snapshot], by simp [published.snapshot]⟩,
    by rw [published.snapshot],
    fun running _ => Interpreter.unfinished_of_commit isPublished running, ?_⟩
  rw [published.history]
  split
  · exact Interpreter.boundHistory_push restorable.bounded
  · exact restorable.bounded

theorem Move.restorable (move : program.Move now phase i happenings next after)
    (restorable : program.Restorable limit phase i) : program.Restorable limit next after := by
  have shown := move.shown restorable.shown
  have status := move.status restorable.status
  have unfinished := restorable.unfinished
  have bounded := restorable.bounded
  cases move with
  | publish isPublished => exact restorable.publish isPublished
  | begin unstarted =>
      refine ⟨shown, status, fun _ settled => ?_, bounded⟩
      cases settled
  | act _ sameOrigin =>
      refine ⟨shown, status, fun running settled => unfinished running ?_, bounded⟩
      simpa [Phase.isStarting, sameOrigin] using settled
  | stop =>
      refine ⟨shown, status, ?_, ?_⟩ <;>
        cases lifecycle : i.lifecycle <;> cases busy : i.busy <;> simp_all [Interpreter.stop]
  | abandon isStart =>
      refine ⟨shown, status, ?_, bounded⟩
      cases lifecycle : i.lifecycle <;>
        simp_all [Interpreter.abandonStart, Interpreter.release]
  | fail isSignal =>
      refine ⟨shown, status, fun running _ => unfinished running ?_, bounded⟩
      simp [Phase.isStarting, isSignal, Origin.isRecorded]
  | discard isDiscarded =>
      refine ⟨shown, status, fun running _ => ?_, bounded⟩
      exact absurd running (Interpreter.halted_of_discarded isDiscarded)
  | quiet | enter | subscribe | unsubscribe | settle =>
      exact ⟨shown, status, unfinished, bounded⟩
  | wake | tell | bid | resume | leave | skip | take | release =>
      exact ⟨shown, status, fun running _ => unfinished running rfl, bounded⟩

theorem restorable_assemble {lifecycle : Lifecycle} {configuration : Configuration}
    {context : Context} {history : History}
    (unfinished : lifecycle = .running → Configuration.isInFinal program.definition.toStateTree
      configuration StateTree.root = false)
    (bounded : Interpreter.boundHistory limit history = history) :
    program.Restorable limit phase
      (.assemble program.definition lifecycle configuration context history) :=
  ⟨⟨rfl, rfl⟩, rfl, fun running _ => unfinished running, bounded⟩

/-- An interpreter before its first request, made with some bound for its history: a fresh
one, or one restored from a checkpoint. -/
def BeginsWith (program : Program σ Listener) (limit : Option UInt64)
    (interpreter : Interpreter Listener) : Prop :=
  program.interpreter limit = .ok interpreter ∨
    ∃ checkpoint, program.restore limit checkpoint = .ok interpreter

theorem BeginsWith.begins (begins : program.BeginsWith limit i) : program.Begins i :=
  begins.imp (fun isNew => ⟨limit, isNew⟩) fun ⟨checkpoint, isRestored⟩ =>
    ⟨limit, checkpoint, isRestored⟩

theorem exists_beginsWith (begins : program.Begins i) : ∃ limit, program.BeginsWith limit i := by
  rcases begins with ⟨limit, isNew⟩ | ⟨limit, checkpoint, isRestored⟩
  · exact ⟨limit, .inl isNew⟩
  · exact ⟨limit, .inr ⟨checkpoint, isRestored⟩⟩

theorem unfinished_of_resumes {status : Status} {configuration : Configuration}
    (running : program.resumes status configuration = .running) :
    Configuration.isInFinal program.definition.toStateTree configuration StateTree.root =
      false := by
  unfold resumes at running
  split at running
  · cases running
  · next unfinished => simpa [running] using unfinished

theorem BeginsWith.restorable (begins : program.BeginsWith limit i) :
    program.Restorable limit phase i := by
  rcases begins with isNew | ⟨checkpoint, isRestored⟩
  · rw [interpreter_eq isNew]
    exact restorable_assemble (fun running => by cases running)
      Interpreter.boundHistory_boundHistory
  · obtain ⟨_, _, _, configuration, _, rfl⟩ := restore_eq_ok_iff.1 isRestored
    exact restorable_assemble unfinished_of_resumes Interpreter.boundHistory_boundHistory

theorem BeginsWith.valid (begins : program.BeginsWith limit i) :
    program.registry.validate program.definition = .ok () := by
  rcases begins with isNew | ⟨checkpoint, isRestored⟩
  · unfold Program.interpreter at isNew
    cases valid : program.registry.validate program.definition with
    | error error => simp [valid, bind, Except.bind] at isNew
    | ok _ => rfl
  · exact (restore_eq_ok_iff.1 isRestored).2.2.1

/-- A machine resumes as it was: a checkpoint gives back all but timers and subscribers. -/
theorem restore_checkpoint (restorable : program.Restorable limit phase i)
    (settled : i.lifecycle = .running → phase.isStarting = false)
    (valid : program.registry.validate program.definition = .ok ())
    (described : Configuration.ofValue program.definition.toStateTree
      (Configuration.value program.definition.toStateTree i.configuration) =
        .ok i.configuration)
    (started : i.lifecycle ≠ .notStarted) (id : Uuid) (timestamp : Timestamp) :
    program.restore limit (i.checkpoint program.definition id timestamp) =
      .ok (.assemble program.definition i.lifecycle i.configuration i.context i.history) := by
  have sameLifecycle : program.resumes i.snapshot.status i.configuration = i.lifecycle := by
    rw [restorable.status, resumes]
    cases lifecycle : i.lifecycle with
    | notStarted => exact absurd lifecycle started
    | running =>
        simp [Lifecycle.status, Lifecycle.resumed,
          restorable.unfinished lifecycle (settled lifecycle)]
    | done | stopped => simp [Lifecycle.status, Lifecycle.resumed]
  refine restore_eq_ok_iff.2 ⟨rfl, rfl, valid, i.configuration, ?_, ?_⟩
  · rw [← restorable.shown.value] at described
    exact described
  · simp only [Interpreter.checkpoint, sameLifecycle, restorable.shown.context,
      restorable.bounded]

end Program

end Statechart
