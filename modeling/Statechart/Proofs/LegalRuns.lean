import Statechart.Proofs.Root
import Statechart.Proofs.Succession
import Statechart.Proofs.Value

/-!
# Legality along runs

Only a step that is published changes what is active. The configuration that it publishes
is legal unless one of its transitions leads to the root of a machine that has other
states; such a step leaves the root alone active.
-/

namespace Statechart

variable {σ Listener : Type}

namespace Execution

/-- The executions that a number of small steps pass through. -/
def trace (program : Program σ Listener) (now : Timestamp) :
    Nat → Execution σ Listener → List (Execution σ Listener)
  | 0, _ => []
  | count + 1, execution =>
    match execution.step? program now with
    | none => []
    | some next => next :: trace program now count next

theorem configuration_advanceNext {execution : Execution σ Listener}
    {rest : List (Work σ Listener)} {limit : Duration} {fired : Nat}
    {resume : Except InterpreterError Nat → Work σ Listener} :
    (execution.advanceNext rest limit fired resume).interpreter.configuration =
      execution.interpreter.configuration := by
  simp only [advanceNext]
  split
  · rfl
  · exact standsStill_deliver.configuration

end Execution

namespace Program

/-- A small step publishes a step in progress whose actions have all succeeded. -/
def Publishes (program : Program σ Listener) (before after : Execution σ Listener)
    (step : RunningStep (Work σ Listener)) : Prop :=
  ∃ now rest, before.work = .stepping step :: rest ∧ step.pending = [] ∧
    before.interpreter.commit program.definition now step.result = .published after.interpreter

/-- The transitions of a step in progress; the initial entry takes none. -/
def transitionsOf (program : Program σ Listener) (interpreter : Interpreter Listener)
    (step : RunningStep (Work σ Listener)) : List Transition :=
  match step.origin with
  | .start _ => []
  | .signal fired _ =>
    program.transitionsFor interpreter.configuration interpreter.context fired step.event

/-- A small step publishes a step with a transition to the root of a machine that has
other states. -/
def ReturnsToRoot (program : Program σ Listener) (before after : Execution σ Listener) : Prop :=
  ∃ step, program.Publishes before after step ∧
    ∃ t ∈ program.transitionsOf before.interpreter step,
      t.target = some StateTree.root ∧ program.definition.isLeaf StateTree.root = false

variable {program : Program σ Listener} {before after : Execution σ Listener}

/-- Only a published step changes what is active. -/
theorem Step.configuration_eq_or (steps : program.Step before after) :
    after.interpreter.configuration = before.interpreter.configuration ∨
      ∃ step, program.Publishes before after step := by
  obtain ⟨now, steps⟩ := steps
  cases isWork : before.work with
  | nil => simp [Execution.step?, isWork] at steps
  | cons top rest =>
      rcases Execution.standsStill_of_step isWork steps with
        still | ⟨step, rfl, rfl⟩ | ⟨limit, fired, resume, rfl, rfl⟩
      · exact .inl still.configuration
      · unfold Execution.stepNext
        split
        · next ran =>
          unfold Execution.finish
          split
          · exact .inl rfl
          · next overflows => exact .inl (Interpreter.configuration_of_overflow overflows)
          · next isPublished => exact .inr ⟨step, now, rest, isWork, ran, isPublished⟩
        · dsimp only
          split <;> exact .inl rfl
      · exact .inl Execution.configuration_advanceNext

section Publishes

variable {step : RunningStep (Work σ Listener)}

/-- A step that is published was planned in what is committed until then. -/
theorem Publishes.planned (publishes : program.Publishes before after step)
    (orderly : program.Orderly before) :
    program.Planned before.interpreter.configuration before.interpreter.context step := by
  obtain ⟨now, rest, isWork, _, _⟩ := publishes
  obtain ⟨owner, shaped, _⟩ := (orderly.sound isWork).2.ready
  cases shaped with
  | stepping planned => exact planned

theorem Publishes.configuration (publishes : program.Publishes before after step) :
    after.interpreter.configuration = step.plan.configuration := by
  obtain ⟨now, rest, _, _, isPublished⟩ := publishes
  exact (Interpreter.configuration_of_published isPublished).2.1

theorem delayed_declared {definition : Definition} {key : TimerKey} {delayed : DelayedTransition}
    (isDelayed : definition.delayed? key = some delayed) :
    delayed.transition ∈ definition.transitions key.state :=
  List.mem_append_right _ (List.mem_map_of_mem (List.mem_of_getElem? isDelayed))

/-- The transitions of a signal can be taken together. -/
theorem compatible_transitionsFor {configuration : Configuration} {context : Context}
    {fired : Option (TimerKey × Nat)} {event : String}
    (wellFormed : program.definition.WellFormed)
    (legal : Configuration.Legal program.definition.toStateTree configuration)
    (isActive : ∀ key generation, fired = some (key, generation) → key.state ∈ configuration) :
    program.definition.Compatible configuration
      (program.transitionsFor configuration context fired event) := by
  unfold transitionsFor
  split
  · exact wellFormed.compatible_select legal
  · next key generation =>
    cases isDelayed : program.definition.delayed? key with
    | none => exact ⟨wellFormed.linked, legal, by simp, by simp, by simp⟩
    | some delayed =>
        exact wellFormed.compatible_singleton legal (delayed_declared isDelayed)
          (isActive key generation rfl)

/-- A step publishes a legal configuration unless it returns to the root. -/
theorem Publishes.legal_iff (publishes : program.Publishes before after step)
    (wellFormed : program.definition.WellFormed) (orderly : program.Orderly before)
    (legal : Configuration.Legal program.definition.toStateTree before.interpreter.configuration) :
    Configuration.Legal program.definition.toStateTree after.interpreter.configuration ↔
      ¬ ∃ t ∈ program.transitionsOf before.interpreter step,
        t.target = some StateTree.root ∧ program.definition.isLeaf StateTree.root = false := by
  have planned := publishes.planned orderly
  rw [publishes.configuration]
  unfold Planned at planned
  unfold transitionsOf
  cases origin : step.origin with
  | start resume =>
      rw [origin] at planned
      rw [planned.1]
      simp [Definition.initialPlan, wellFormed.legal_initialConfiguration]
  | signal fired drain =>
      rw [origin] at planned
      rw [planned.1]
      exact (compatible_transitionsFor wellFormed legal planned.2).legal_plan_iff wellFormed

end Publishes

theorem Begins.legal (wellFormed : program.definition.WellFormed)
    {interpreter : Interpreter Listener} (begins : program.Begins interpreter) :
    Configuration.Legal program.definition.toStateTree interpreter.configuration := by
  rcases begins with ⟨limit, isOk⟩ | ⟨limit, checkpoint, isOk⟩
  · rw [interpreter_eq isOk]
    exact wellFormed.legal_initialConfiguration
  · obtain ⟨_, configuration, _, _, _, described, rfl⟩ := restore_eq isOk
    exact Configuration.legal_of_ofValue wellFormed.linked described

/-- One small step keeps what is active legal unless it returns to the root. -/
theorem Step.legal_iff (steps : program.Step before after)
    (wellFormed : program.definition.WellFormed) (orderly : program.Orderly before)
    (legal : Configuration.Legal program.definition.toStateTree before.interpreter.configuration) :
    Configuration.Legal program.definition.toStateTree after.interpreter.configuration ↔
      ¬ program.ReturnsToRoot before after := by
  by_cases publishes : ∃ step, program.Publishes before after step
  · obtain ⟨step, publishes⟩ := publishes
    rw [publishes.legal_iff wellFormed orderly legal, not_iff_not]
    constructor
    · exact fun returns => ⟨step, publishes, returns⟩
    · rintro ⟨other, alsoPublishes, returns⟩
      obtain ⟨_, _, isWork, _⟩ := publishes
      obtain ⟨_, _, isOther, _⟩ := alsoPublishes
      cases isWork.symm.trans isOther
      exact returns
  · rw [steps.configuration_eq_or.resolve_right publishes]
    exact iff_of_true legal fun ⟨step, isPublished, _⟩ => publishes ⟨step, isPublished⟩

theorem legal_along_run_iff {start : Execution σ Listener} {later : List (Execution σ Listener)}
    (wellFormed : program.definition.WellFormed) (orderly : program.Orderly start)
    (legal : Configuration.Legal program.definition.toStateTree start.interpreter.configuration)
    (run : (start :: later).IsChain program.Step) :
    (∀ execution ∈ start :: later, Configuration.Legal program.definition.toStateTree
        execution.interpreter.configuration) ↔
      (start :: later).IsChain fun before after => ¬ program.ReturnsToRoot before after := by
  -- the invariant of the machine goes along, and legality as far as it has held
  induction later generalizing start with
  | nil =>
      refine iff_of_true (fun execution member => ?_) (.singleton start)
      obtain rfl := List.mem_singleton.1 member
      exact legal
  | cons next later ih =>
      obtain ⟨step, run⟩ := List.isChain_cons_cons.1 run
      have nextOrderly := orderly.next step
      have legal_iff := step.legal_iff wellFormed orderly legal
      rw [List.isChain_cons_cons]
      constructor
      · intro allLegal
        have nextLegal := allLegal next (.tail _ (.head _))
        refine ⟨legal_iff.1 nextLegal, (ih nextOrderly nextLegal run).1 fun execution member => ?_⟩
        exact allLegal execution (.tail _ member)
      · rintro ⟨stays, chain⟩ execution member
        have nextLegal := legal_iff.2 stays
        rcases List.mem_cons.1 member with rfl | member
        · exact legal
        · exact (ih nextOrderly nextLegal run).2 chain execution member

/-- What is active is legal all along a run, whatever is requested, exactly if the run
never publishes a step to the root of a machine with other states. -/
theorem isLegal_along_run_iff {machine : MachineSpec}
    (built : machine.build = .ok program.definition) {interpreter : Interpreter Listener}
    (begins : program.Begins interpreter) (memory : σ) (code : Routine σ Listener Unit)
    {later : List (Execution σ Listener)}
    (run : (Execution.ofClient interpreter memory code :: later).IsChain program.Step) :
    (∀ execution ∈ Execution.ofClient interpreter memory code :: later,
        Configuration.isLegal program.definition.toStateTree
          execution.interpreter.configuration = true) ↔
      (Execution.ofClient interpreter memory code :: later).IsChain
        fun before after => ¬ program.ReturnsToRoot before after := by
  have wellFormed := MachineSpec.wellFormed_of_build built
  simp only [Configuration.isLegal_iff wellFormed.linked]
  exact legal_along_run_iff wellFormed (orderly_ofClient begins) (begins.legal wellFormed) run

theorem isChain_trace (now : Timestamp) (count : Nat) (start : Execution σ Listener) :
    (start :: start.trace program now count).IsChain program.Step := by
  induction count generalizing start with
  | zero => exact .singleton start
  | succ count ih =>
      rw [Execution.trace]
      cases step : start.step? program now with
      | none => exact .singleton start
      | some next => exact .cons_cons ⟨now, step⟩ (ih next)

/-- A studio that is started and reset. -/
def resetting : Execution Unit Empty :=
  .ofClient (.fresh MachineSpec.studio.resolved none) () do
    let _ ← Routine.request .start
    let _ ← Routine.request (.send "reset")

theorem studio_returns_to_root :
    ¬ (resetting :: resetting.trace (studio (.ok ()) (.ok ())) default 12).IsChain
      fun before after => ¬ (studio (.ok ()) (.ok ())).ReturnsToRoot before after := by
  intro stays
  have allLegal := (isLegal_along_run_iff MachineSpec.studio_built (begins_studio _ _) () _
    (isChain_trace default 12 resetting)).2 stays
  have someIllegal : ((resetting :: resetting.trace (studio (.ok ()) (.ok ())) default 12).any
      fun execution => !Configuration.isLegal MachineSpec.studio.resolved.toStateTree
        execution.interpreter.configuration) = true := by
    cbv
  obtain ⟨execution, member, illegal⟩ := List.any_eq_true.1 someIllegal
  have legal := allLegal execution member
  simp [studio] at legal
  simp [legal] at illegal

end Program

end Statechart
