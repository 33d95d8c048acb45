import Statechart.Proofs.Answers
import Statechart.Proofs.Restoration

/-!
# Starting a restored machine

A checkpoint does not tell a machine that has not been started from one that runs: both are
marked active. Restored, both run, and a start is refused. So a machine that has been started
resumes as it was, and one that has not is at work without its initial entry.
-/

namespace Statechart

variable {σ Listener : Type}

namespace Program

open Chronicle

variable {program : Program σ Listener} {s : Standing σ Listener}
variable {i restored : Interpreter Listener} {limit : Option UInt64} {checkpoint : Checkpoint}

/-- A start is refused: it is answered at once, and nothing happens. -/
def RefusesStart (program : Program σ Listener) (s : Standing σ Listener) : Prop :=
  ∀ now, program.Answers [now] s .start (.error .alreadyStarted) [] s

/-- A start is accepted: at once the machine is at work on its initial entry. -/
def AcceptsStart (program : Program σ Listener) (s : Standing σ Listener) : Prop :=
  ∀ now next, (s.does [.client (.ask .start next)]).step? program now =
    some (Standing.does ({ s.1 with lifecycle := .running, busy := true }, s.2)
      [.stepping (.begin (.start fun answer => .client (next answer)) initEvent
        program.definition.initialPlan program.definition.context)])

theorem acceptsStart_iff : program.AcceptsStart s ↔ s.1.lifecycle = .notStarted := by
  constructor
  · intro accepts
    refine Decidable.byContradiction fun started => ?_
    have steps := accepts default fun _ => .done ()
    simp [Execution.step?, Standing.does, Execution.proceed, Execution.meet, started] at steps
  · intro unstarted now next
    simp [Execution.step?, Standing.does, Execution.proceed, Execution.meet, unstarted]

theorem refusesStart_iff : program.RefusesStart s ↔ s.1.lifecycle ≠ .notStarted := by
  constructor
  · intro refuses unstarted
    have accepts : program.AcceptsStart s := acceptsStart_iff.2 unstarted
    have steps := accepts default fun _ => .done ()
    have ends := (refuses default fun _ => .done ()).1
    rw [Execution.runAt_cons steps] at ends
    cases (Standing.does_inj ends).2
  · intro started now
    refine Onward.brings fun next => ⟨?_, rfl⟩
    simp [Execution.step?, Standing.does, Execution.proceed, Execution.meet, started]

/-- A machine goes on as another would, as far as it is seen whether it runs and whether it
can be started. -/
structure KeepsStart (program : Program σ Listener) (s t : Standing σ Listener) : Prop where
  isRunning : t.1.isRunning = s.1.isRunning
  refuses : program.RefusesStart t ↔ program.RefusesStart s
  accepts : program.AcceptsStart t ↔ program.AcceptsStart s

theorem keepsStart_iff {t : Standing σ Listener} :
    program.KeepsStart s t ↔ t.1.isRunning = s.1.isRunning ∧
      (t.1.lifecycle = .notStarted ↔ s.1.lifecycle = .notStarted) := by
  constructor
  · rintro ⟨isRunning, _, accepts⟩
    rw [acceptsStart_iff, acceptsStart_iff] at accepts
    exact ⟨isRunning, accepts⟩
  · rintro ⟨isRunning, same⟩
    refine ⟨isRunning, ?_, ?_⟩
    · rw [refusesStart_iff, refusesStart_iff, ne_eq, ne_eq, same]
    · rw [acceptsStart_iff, acceptsStart_iff, same]

theorem not_unstarted_of_restore (isRestored : program.restore limit checkpoint = .ok restored) :
    restored.lifecycle ≠ .notStarted := by
  obtain ⟨_, _, _, _, started, _, rfl⟩ := restore_eq isRestored
  exact started

/-- What the checkpoint of a machine resumes as: one that runs, or is not started, runs unless
it has come to its end. -/
theorem lifecycle_of_restore {phase : Phase σ Listener} {id : Uuid} {timestamp : Timestamp}
    {keep : Option UInt64} (restorable : program.Restorable keep phase i)
    (isRestored :
      program.restore limit (i.checkpoint program.definition id timestamp) = .ok restored) :
    restored.lifecycle =
      match i.lifecycle with
      | .notStarted | .running =>
        if Configuration.isInFinal program.definition.toStateTree restored.configuration
          StateTree.root then .done else .running
      | .done => .done
      | .stopped => .stopped := by
  obtain ⟨_, _, _, configuration, _, rfl⟩ := restore_eq_ok_iff.1 isRestored
  have sameStatus : (i.checkpoint program.definition id timestamp).status = i.lifecycle.status :=
    restorable.status
  simp only [Interpreter.assemble, resumes, sameStatus]
  cases i.lifecycle <;> simp [Lifecycle.status, Lifecycle.resumed]

/-- A legal configuration is restored as it was. -/
theorem configuration_of_restore {machine : MachineSpec} (distinct : machine.root.Distinct)
    (built : machine.build = .ok program.definition) {phase : Phase σ Listener}
    {keep : Option UInt64} {id : Uuid} {timestamp : Timestamp}
    (restorable : program.Restorable keep phase i)
    (legal : Configuration.isLegal program.definition.toStateTree i.configuration = true)
    (isRestored :
      program.restore limit (i.checkpoint program.definition id timestamp) = .ok restored) :
    restored.configuration = i.configuration := by
  have wellFormed := MachineSpec.wellFormed_of_build built
  have discrete : program.definition.Discrete := by
    obtain ⟨_, isResolved⟩ := MachineSpec.build_eq_ok_iff.1 built
    rw [← isResolved]
    exact StateTree.discrete_ofMachine distinct
  have described := Configuration.ofValue_value_of_legal wellFormed.linked discrete
    ((Configuration.isLegal_iff wellFormed.linked).1 legal)
  obtain ⟨_, _, _, configuration, alsoDescribed, rfl⟩ := restore_eq_ok_iff.1 isRestored
  have isValue : (i.checkpoint program.definition id timestamp).value =
      Configuration.value program.definition.toStateTree i.configuration := restorable.shown.value
  rw [isValue, described] at alsoDescribed
  exact (Except.ok.inj alsoDescribed).symm

section Run

variable {start : Interpreter Listener} {memory : σ} {code : Routine σ Listener Unit}
variable {execution : Execution σ Listener} {chronicle : Chronicle Listener}

/-- What is known of an idle machine, wherever a run has left it. -/
theorem RunsTo.exists_restorable (begins : program.Begins start)
    (run : program.RunsTo (.ofClient start memory code) chronicle execution)
    (isIdle : execution.interpreter.busy = false) :
    ∃ (keep : Option UInt64) (phase : Phase σ Listener),
      program.Restorable keep phase execution.interpreter ∧
      (execution.interpreter.lifecycle = .running → phase.isStarting = false) ∧
      ((∃ own, program.interpreter own = .ok start) →
        Opening phase execution.interpreter chronicle) := by
  obtain ⟨keep, beginsWith⟩ := exists_beginsWith begins
  -- where the clock has left its range, only timers differ from what was there before
  obtain ⟨last, timers, before, inRange, same⟩ := run.exists_inRange (situated_ofClient begins)
  obtain ⟨phase, situated, restorable, opening⟩ := before.induct
    (fun phase i chronicle => program.Restorable keep phase i ∧
      ((∃ own, program.interpreter own = .ok start) → Opening phase i chronicle))
    inRange (situated_ofClient begins)
    ⟨beginsWith.restorable, fun ⟨own, isNew⟩ => ⟨fun _ => rfl,
      fun _ => .inr (.inl (by rw [interpreter_eq isNew]; rfl)), fun _ _ split => by cases split⟩⟩
    fun _ move holds => ⟨move.restorable holds.1, fun isNew => move.opening (holds.2 isNew)⟩
  rw [same] at isIdle ⊢
  refine ⟨keep, phase, ⟨⟨restorable.shown.value, restorable.shown.context⟩, restorable.status,
    restorable.unfinished, restorable.bounded⟩, fun running => ?_, fun isNew => ?_⟩
  · have isActive : last.interpreter.lifecycle = .running := running
    rw [situated.fits.eq_outside isIdle (by simp [isActive])]
    rfl
  · obtain ⟨unstarted, started, recorded⟩ := opening isNew
    exact ⟨unstarted, started, recorded⟩

/-- A machine that is restored from its checkpoint runs as it did, and can be started as it
could, exactly if it had been started; only where its configuration was not legal its value may
also describe the end of a machine that was still running. Of a new machine that runs when it is
restored, the initial entry has not taken effect exactly if it had not been started. -/
theorem restored_keeps_start_iff {machine : MachineSpec} (distinct : machine.root.Distinct)
    (built : machine.build = .ok program.definition) (begins : program.Begins start)
    (run : program.RunsTo (.ofClient start memory code) chronicle execution)
    (isIdle : execution.interpreter.busy = false) {id : Uuid} {timestamp : Timestamp}
    (isRestored : program.restore limit
      (execution.interpreter.checkpoint program.definition id timestamp) = .ok restored) :
    (Configuration.isLegal program.definition.toStateTree
        execution.interpreter.configuration = true →
      (program.KeepsStart execution.standing (restored, execution.memory) ↔
        execution.interpreter.lifecycle ≠ .notStarted)) ∧
    (program.KeepsStart execution.standing (restored, execution.memory) ↔
      execution.interpreter.lifecycle ≠ .notStarted ∧
      (execution.interpreter.isRunning = true →
        Configuration.isInFinal program.definition.toStateTree restored.configuration
          StateTree.root = false)) ∧
    ((∃ own, program.interpreter own = .ok start) → restored.isRunning = true →
      (commitments chronicle = [] ↔ execution.interpreter.lifecycle = .notStarted)) := by
  obtain ⟨keep, phase, restorable, settled, opening⟩ := run.exists_restorable begins isIdle
  have resumed := lifecycle_of_restore restorable isRestored
  have keeps : program.KeepsStart execution.standing (restored, execution.memory) ↔
      execution.interpreter.lifecycle ≠ .notStarted ∧
      (execution.interpreter.isRunning = true →
        Configuration.isInFinal program.definition.toStateTree restored.configuration
          StateTree.root = false) := by
    have started := not_unstarted_of_restore isRestored
    rw [keepsStart_iff, iff_false_left started]
    show restored.isRunning = execution.interpreter.isRunning ∧
      ¬ execution.interpreter.lifecycle = .notStarted ↔ _
    rw [Interpreter.isRunning, Interpreter.isRunning, resumed]
    cases execution.interpreter.lifecycle <;>
      cases Configuration.isInFinal program.definition.toStateTree restored.configuration
        StateTree.root <;>
      simp
  refine ⟨fun legal => ?_, keeps, fun isNew running => ⟨fun nothing => ?_, fun unstarted => ?_⟩⟩
  · rw [keeps, and_iff_left_iff_imp]
    intro started isRunning
    have running : execution.interpreter.lifecycle = .running := by
      simpa [Interpreter.isRunning] using isRunning
    rw [configuration_of_restore distinct built restorable legal isRestored]
    exact restorable.unfinished running (settled running)
  · have isActive : restored.lifecycle = .running := by
      simpa [Interpreter.isRunning] using running
    cases lifecycle : execution.interpreter.lifecycle with
    | notStarted => rfl
    | running => exact absurd nothing ((opening isNew).running lifecycle (settled lifecycle))
    | done | stopped => simp [resumed, lifecycle] at isActive
  · exact (opening isNew).unstarted (.inr unstarted)

end Run

/-- The studio is saved before anyone has started it. Restored it runs, although it has not been
booted, and can no longer be started. -/
theorem unstarted_studio_is_restored_running :
    let fresh : Interpreter Empty := .fresh MachineSpec.studio.resolved none
    let studio := studio (.ok ()) (.ok ())
    ∃ restored,
      studio.restore none (fresh.checkpoint studio.definition default default) = .ok restored ∧
      restored.isRunning = true ∧ fresh.isRunning = false ∧ studio.RefusesStart (restored, ()) ∧
      ¬ studio.KeepsStart (fresh, ()) (restored, ()) := by
  intro fresh studio
  have described : Configuration.ofValue studio.definition.toStateTree fresh.snapshot.value =
      .ok (.ofList [0, 1]) := by cbv
  have isRestored : studio.restore none (fresh.checkpoint studio.definition default default) =
      .ok (.assemble studio.definition (studio.resumes .active (.ofList [0, 1])) (.ofList [0, 1])
        fresh.context fresh.history) :=
    restore_eq_ok_iff.2 ⟨rfl, rfl, by cbv, _, described, rfl⟩
  have running : (Interpreter.assemble studio.definition (studio.resumes .active (.ofList [0, 1]))
      (.ofList [0, 1]) fresh.context fresh.history : Interpreter Empty).isRunning = true := by cbv
  have run : studio.RunsTo (.ofClient fresh () (.done ())) [] (.ofClient fresh () (.done ())) :=
    .refl
  have kept := (restored_keeps_start_iff (by decide +kernel) MachineSpec.studio_built
    (begins_studio (.ok ()) (.ok ())) run rfl isRestored).2.1
  refine ⟨_, isRestored, running, rfl, refusesStart_iff.2 (not_unstarted_of_restore isRestored),
    fun keeps => (kept.1 keeps).1 rfl⟩

end Program

end Statechart
