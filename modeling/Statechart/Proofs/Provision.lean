import Statechart.Proofs.Atomicity
import Statechart.Proofs.LegalRuns
import Statechart.Proofs.References
import Statechart.Proofs.Restoration

/-!
# Provision

An interpreter is made only of a registry that provides every name of the definition. What a
run looks up are names of the definition: the actions of a plan are those of the states that it
exits and enters and of the transitions that it takes, and the guards that are asked are those of
candidates. So nothing is ever looked up in vain.
-/

namespace Statechart

variable {σ Listener : Type}

namespace Definition

variable {definition : Definition} {active : Configuration} {transitions : List Transition}
variable {call : Invocation}

theorem mem_invocationsOf {actions : List String} {n : Nat} :
    call ∈ invocationsOf actions n ↔ call.action ∈ actions ∧ call.state = n := by
  simp only [invocationsOf, List.mem_map]
  constructor
  · rintro ⟨action, member, rfl⟩
    exact ⟨member, rfl⟩
  · rintro ⟨member, rfl⟩
    exact ⟨call.action, member, rfl⟩

/-- What a plan calls are actions that some state names, if the transitions are declared. -/
theorem usesAction_of_plan (declared : ∀ t ∈ transitions, ∃ n, t ∈ definition.transitions n)
    (isCalled : call ∈ (definition.plan active transitions).invocations) :
    ∃ n, definition.UsesAction n call.action := by
  simp only [plan, List.mem_append, List.mem_flatMap, mem_invocationsOf] at isCalled
  rcases isCalled with (⟨n, _, named, _⟩ | ⟨t, isTaken, named, _⟩) | ⟨n, _, named, _⟩
  · exact ⟨n, .exit named⟩
  · obtain ⟨n, isDeclared⟩ := declared t isTaken
    exact ⟨n, usesAction_of_transitions isDeclared named⟩
  · exact ⟨n, .entry named⟩

theorem usesAction_of_initialPlan (isCalled : call ∈ definition.initialPlan.invocations) :
    ∃ n, definition.UsesAction n call.action := by
  simp only [initialPlan, List.mem_flatMap, mem_invocationsOf] at isCalled
  obtain ⟨n, _, named, _⟩ := isCalled
  exact ⟨n, .entry named⟩

end Definition

namespace Program

variable {program : Program σ Listener} {execution : Execution σ Listener}
variable {interpreter : Interpreter Listener} {step : RunningStep (Work σ Listener)}
variable {call : Invocation}

/-- The transitions that a signal takes are declared by some state. -/
theorem declared_of_transitionsFor {configuration : Configuration} {context : Context}
    {fired : Option (TimerKey × Nat)} {event : String} :
    ∀ t ∈ program.transitionsFor configuration context fired event,
      ∃ n, t ∈ program.definition.transitions n := by
  intro t isTaken
  unfold transitionsFor at isTaken
  split at isTaken
  · obtain ⟨_, _, n, _, declared⟩ := Definition.exists_declared_of_select isTaken
    exact ⟨n, declared⟩
  · next key generation =>
    simp only [Option.mem_toList, Option.map_eq_some_iff] at isTaken
    obtain ⟨delayed, isDelayed, rfl⟩ := isTaken
    exact ⟨key.state, delayed_declared isDelayed⟩

/-- A step that is planned calls actions that the definition names. -/
theorem Planned.usesAction {configuration : Configuration} {context : Context}
    (planned : program.Planned configuration context step)
    (isCalled : call ∈ step.plan.invocations) :
    ∃ n, program.definition.UsesAction n call.action := by
  unfold Planned at planned
  cases origin : step.origin with
  | start resume =>
      rw [origin] at planned
      rw [planned.1] at isCalled
      exact Definition.usesAction_of_initialPlan isCalled
  | signal fired drain =>
      rw [origin] at planned
      rw [planned.1] at isCalled
      exact Definition.usesAction_of_plan declared_of_transitionsFor isCalled

/-- Whatever is still to be called in a reachable step is an action that the definition
names. -/
theorem Reachable.usesAction (reachable : program.Reachable execution)
    (performs : execution.Performs step) (isPending : call ∈ step.pending) :
    ∃ n, program.definition.UsesAction n call.action := by
  obtain ⟨interpreter, memory, code, begins, steps⟩ := reachable
  obtain ⟨chronicle, run⟩ := exists_runsTo steps
  have situated : program.Situated .outside (.ofClient interpreter memory code) :=
    situated_ofClient begins
  obtain ⟨before, _, _, underway⟩ := run.underway situated performs
  obtain ⟨_, opening, _, _, opens, continues⟩ := underway.opening
  have isCalled : call ∈ step.plan.invocations := by
    rw [continues.plan, ← opens.pending]
    exact continues.pending.subset isPending
  obtain ⟨phase, isSituated⟩ := run.situated_of_performs situated performs
  have isStep := isSituated.arranged.performs_iff.1 performs
  exact (isSituated.settled.planned step isStep).usesAction isCalled

section

variable {machine : MachineSpec} (built : machine.build = .ok program.definition)

include built

theorem Begins.provides (begins : program.Begins interpreter) :
    program.registry.Provides program.definition := by
  obtain ⟨limit, beginsWith⟩ := exists_beginsWith begins
  exact (Registry.validate_eq_ok_iff built).1 beginsWith.valid

/-- A registry is accepted exactly if it provides every action and every guard that the states
of the definition name; else it is told each that is missing for each state, once. In any run of
an interpreter, whatever is still to be called in the step in progress is there, and so is the
guard of any candidate that an event may be offered to. -/
theorem names_are_never_unknown :
    (program.registry.validate program.definition = .ok () ↔
        program.registry.Provides program.definition) ∧
      (∀ error, program.registry.validate program.definition = .error error →
        error.issues.Nodup ∧
          ∀ issue, issue ∈ error.issues ↔ program.registry.Lacks program.definition issue) ∧
      ∀ execution, program.Reachable execution →
        (∀ step, execution.Performs step → ∀ call ∈ step.pending,
          ∃ action, program.registry.action? call.action = some action) ∧
        ∀ n event candidates, program.definition.candidates? n event = some candidates →
          ∀ t ∈ candidates, ∀ name, t.guard = some name →
            ∃ guard, program.registry.guard? name = some guard := by
  refine ⟨Registry.validate_eq_ok_iff built, fun error => Registry.issues_of_validate built,
    fun execution reachable => ?_⟩
  have provides : program.registry.Provides program.definition := by
    obtain ⟨_, _, _, begins, _⟩ := reachable
    exact begins.provides built
  constructor
  · intro step performs call isPending
    obtain ⟨n, uses⟩ := reachable.usesAction performs isPending
    exact provides.action uses
  · intro n event candidates found t isCandidate name named
    exact provides.guard (Definition.usesGuard_of_candidates? found isCandidate named)

end

end Program

/-- A vault that only who is known may open, and that shuts by itself. -/
def MachineSpec.vault : MachineSpec :=
  (named "vault").startingIn "shut"
    |>.child "shut" ((StateSpec.atomic.onExit "log").candidate "open"
        (((TransitionSpec.leadingTo "open").guardedBy "known").action "unlock"))
    |>.child "open" ((StateSpec.atomic.onEntry "greet").delayed
        ((DelayedSpec.after (.ofMillis 50) "shut").action "lock"))

theorem MachineSpec.vault_built : vault.build = .ok vault.resolved :=
  build_eq_ok_iff.2 ⟨by decide +kernel, rfl⟩

namespace Program

/-- A vault with some of the actions that it names. -/
def vault (actions : List String) : Program Unit Empty where
  definition := MachineSpec.vault.resolved
  registry :=
    { actions := actions.map fun name => (name, fun call => .done (.ok ⟨call.context, []⟩))
      guards := [("known", fun _ _ => true)] }
  listen := nofun

/-- Someone starts the vault and opens it. -/
def enteringVault : Execution Unit Empty :=
  .ofClient (.fresh MachineSpec.vault.resolved none) () do
    let _ ← Routine.request .start
    let _ ← Routine.request (.send "open")

theorem begins_vault : (vault ["greet", "lock", "log", "unlock"]).Begins
    (.fresh MachineSpec.vault.resolved none) := .inl ⟨none, rfl⟩

/-- The actions that are still to be called, where nothing else is underway. -/
def yetToCall? : List (Work Unit Empty) → Option (List String)
  | [.stepping step] => some (step.pending.map (·.action))
  | _ => none

/-- In a vault that opens, actions are still to be called. -/
theorem performs_entering :
    ∃ step, (enteringVault.run (vault ["greet", "lock", "log", "unlock"]) default 6).Performs step ∧
      step.pending.map (·.action) = ["log", "unlock", "greet"] := by
  have isEntering :
      yetToCall? (enteringVault.run (vault ["greet", "lock", "log", "unlock"]) default 6).work =
        some ["log", "unlock", "greet"] := by cbv
  unfold yetToCall? at isEntering
  split at isEntering
  · next step isWork =>
    have pending := Option.some.inj isEntering
    exact ⟨step, ⟨_, isWork ▸ List.mem_singleton_self _, .here (.inl rfl)⟩, pending⟩
  · cases isEntering

/-- A vault that cannot be locked is refused for that alone. In one that provides all names, who
opens it finds every action that is still to be called. -/
theorem vault_is_provided :
    MachineSpec.vault.build = .ok MachineSpec.vault.resolved ∧
      (vault ["greet", "log", "unlock"]).registry.validate MachineSpec.vault.resolved =
        .error (.unknownAction "vault.open" "lock") ∧
      (∀ issue, issue ∈ [.unknownAction "vault.open" "lock"] ↔
        (vault ["greet", "log", "unlock"]).registry.Lacks MachineSpec.vault.resolved issue) ∧
      ∃ step, (enteringVault.run (vault ["greet", "lock", "log", "unlock"]) default 6).Performs step ∧
        step.pending.map (·.action) = ["log", "unlock", "greet"] ∧
        ∀ call ∈ step.pending, ∃ action,
          (vault ["greet", "lock", "log", "unlock"]).registry.action? call.action =
            some action := by
  have refused : (vault ["greet", "log", "unlock"]).registry.validate MachineSpec.vault.resolved =
      .error (.unknownAction "vault.open" "lock") := by cbv
  have lackingBuilt : MachineSpec.vault.build =
      .ok (vault ["greet", "log", "unlock"]).definition := MachineSpec.vault_built
  have built : MachineSpec.vault.build =
      .ok (vault ["greet", "lock", "log", "unlock"]).definition := MachineSpec.vault_built
  obtain ⟨_, reports, _⟩ := names_are_never_unknown lackingBuilt
  obtain ⟨_, _, finds⟩ := names_are_never_unknown built
  obtain ⟨step, performs, pending⟩ := performs_entering
  have reachable : (vault ["greet", "lock", "log", "unlock"]).Reachable _ :=
    ⟨_, _, _, begins_vault, (runsTo_run default 6 enteringVault).steps⟩
  exact ⟨MachineSpec.vault_built, refused, (reports _ refused).2, step, performs, pending,
    (finds _ reachable).1 step performs⟩

end Program

end Statechart
