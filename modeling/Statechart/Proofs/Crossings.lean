import Statechart.Proofs.Notification
import Statechart.Proofs.TimerDiscipline

/-!
# Crossings

A step crosses the border of a state when it exits the state, and again when it enters it.
Over a whole run the crossings of a state alternate and begin with an entry: a step exits
active states only, and enters only states that are not active or that it exits itself. So
a state is active exactly if it has been entered once more than it has been exited.
-/

namespace Statechart

variable {σ Listener : Type}

/-- One way over the border of a state. -/
inductive Crossing
  | exit
  | entry
  deriving DecidableEq

namespace Crossing

/-- Crossings that alternate, the first of them after another. -/
def Alternate (last : Crossing) (crossings : List Crossing) : Prop :=
  (last :: crossings).IsChain (· ≠ ·)

/-- The last crossing, where another was the last before. -/
def latest (last : Crossing) (crossings : List Crossing) : Crossing :=
  crossings.getLast?.getD last

/-- The last crossing of a state: it is active since, or it is not. -/
def into (active : Configuration) (state : Nat) : Crossing :=
  if state ∈ active then entry else exit

variable {last : Crossing} {crossings later : List Crossing}

@[simp]
theorem latest_append :
    last.latest (crossings ++ later) = (last.latest crossings).latest later := by
  cases later using List.reverseRecOn <;> simp [latest]

theorem alternate_append :
    last.Alternate (crossings ++ later) ↔
      last.Alternate crossings ∧ (last.latest crossings).Alternate later := by
  induction crossings generalizing last with
  | nil => simp [Alternate, latest]
  | cons crossing rest ih =>
      have latest_cons : last.latest (crossing :: rest) = crossing.latest rest := by
        cases rest using List.reverseRecOn <;> simp [latest, List.getLast?_cons]
      rw [latest_cons]
      simp only [Alternate, List.cons_append, List.isChain_cons_cons] at ih ⊢
      rw [ih, and_assoc]

/-- Crossings that alternate come to one entry more, if any, than exits. -/
theorem count_of_alternate (alternate : exit.Alternate crossings) :
    crossings.count entry =
      crossings.count exit + if exit.latest crossings = entry then 1 else 0 := by
  induction crossings using List.reverseRecOn with
  | nil => rfl
  | append_singleton earlier crossing ih =>
      obtain ⟨before, change⟩ := alternate_append.1 alternate
      rw [List.count_append, List.count_append, latest_append, ih before]
      cases was : exit.latest earlier <;> cases crossing <;> simp_all [Alternate, latest]

end Crossing

namespace Plan

/-- How the step of a plan crosses the border of a state: it exits before it enters. -/
def crossings (plan : Plan) (state : Nat) : List Crossing :=
  List.replicate (plan.exited.count state) .exit ++
    List.replicate (plan.entered.count state) .entry

/-- A plan leads on from what is active: it exits and enters a state once at most, exits
active states only, and enters no state that it leaves active. -/
structure Crosses (plan : Plan) (active : Configuration) : Prop where
  exitsOnce : plan.exited.Nodup
  entersOnce : plan.entered.Nodup
  exits : ∀ {n}, n ∈ plan.exited → n ∈ active
  enters : ∀ {n}, n ∈ plan.entered → n ∈ active → n ∈ plan.exited
  after : ∀ {n}, n ∈ plan.configuration ↔ n ∈ plan.entered ∨ (n ∈ active ∧ n ∉ plan.exited)

variable {plan : Plan} {active : Configuration} {state : Nat}

theorem count_exit : (plan.crossings state).count .exit = plan.exited.count state := by
  simp [crossings, List.count_replicate]

theorem count_entry : (plan.crossings state).count .entry = plan.entered.count state := by
  simp [crossings, List.count_replicate]

/-- A step goes on with the crossings where the last one has led. -/
theorem Crosses.alternate (crosses : plan.Crosses active) :
    (Crossing.into active state).Alternate (plan.crossings state) ∧
      (Crossing.into active state).latest (plan.crossings state) =
        .into plan.configuration state := by
  have after := crosses.after (n := state)
  have exits := crosses.exits (n := state)
  have enters := crosses.enters (n := state)
  rw [crossings, crosses.exitsOnce.count, crosses.entersOnce.count]
  by_cases isActive : state ∈ active <;> by_cases isExited : state ∈ plan.exited <;>
    by_cases isEntered : state ∈ plan.entered <;>
    simp_all [Crossing.into, Crossing.Alternate, Crossing.latest]

end Plan

namespace Definition

variable {definition : Definition} {active : Configuration} {transitions : List Transition}

theorem crosses_plan (linked : definition.toStateTree.Linked)
    (targets : ∀ t ∈ transitions, ∀ g, t.target = some g → g < definition.size) :
    (definition.plan active transitions).Crosses active where
  exitsOnce := by
    rw [plan_exited, List.nodup_reverse]
    exact (definition.exiting active transitions).increasing.imp Nat.ne_of_lt
  entersOnce := (definition.entering active transitions).increasing.imp Nat.ne_of_lt
  exits {n} isExited := by
    rw [plan_exited, List.mem_reverse, StateSet.mem_toList, mem_exiting] at isExited
    exact isExited.1
  enters {n} isEntered isActive := by
    by_contra stays
    refine not_retained_of_entering linked targets isEntered (mem_retained.2 ⟨isActive, ?_⟩)
    intro t member touches
    apply stays
    rw [plan_exited, List.mem_reverse, StateSet.mem_toList]
    exact mem_exiting.2 ⟨isActive, t, member, touches⟩
  after {n} := by
    rw [mem_after, mem_retained, plan_entered, plan_exited, List.mem_reverse, StateSet.mem_toList,
      StateSet.mem_toList, mem_exiting, or_comm]
    refine or_congr_right (and_congr_right fun isActive => ?_)
    simp [isActive]

/-- The initial entry leads on from nothing. -/
theorem crosses_initialPlan : definition.initialPlan.Crosses .empty where
  exitsOnce := List.nodup_nil
  entersOnce := definition.initialConfiguration.increasing.imp Nat.ne_of_lt
  exits isExited := absurd isExited List.not_mem_nil
  enters _ isActive := absurd isActive StateSet.not_mem_empty
  after := by simp [initialPlan, StateSet.mem_toList]

end Definition

namespace Chronicle

variable (chronicle : Chronicle Listener)

/-- How the steps that took effect have crossed the border of a state. -/
def crossings (state : Nat) : List Crossing :=
  (commitments chronicle).flatMap fun commitment => commitment.step.plan.crossings state

/-- How often a state has been entered. -/
def entries (state : Nat) : Nat :=
  ((commitments chronicle).map fun commitment => commitment.step.plan.entered.count state).sum

/-- How often a state has been exited. -/
def exits (state : Nat) : Nat :=
  ((commitments chronicle).map fun commitment => commitment.step.plan.exited.count state).sum

/-- What is active: nothing before the initial entry has taken effect. -/
def active (interpreter : Interpreter Listener) : Configuration :=
  if (commitments chronicle).isEmpty then .empty else interpreter.configuration

variable {chronicle} {later : Chronicle Listener} {state : Nat}

theorem crossings_append : crossings (chronicle ++ later) state =
    crossings chronicle state ++ crossings later state := by
  simp [crossings]

theorem count_entry_crossings :
    (crossings chronicle state).count .entry = entries chronicle state := by
  simp [crossings, entries, List.count_flatMap, Function.comp_def, Plan.count_entry]

theorem count_exit_crossings : (crossings chronicle state).count .exit = exits chronicle state := by
  simp [crossings, exits, List.count_flatMap, Function.comp_def, Plan.count_exit]

end Chronicle

namespace Program

open Chronicle

variable {program : Program σ Listener} {now : Timestamp} {phase next : Phase σ Listener}
variable {i after : Interpreter Listener} {happenings chronicle : Chronicle Listener}

/-- A step in progress leads on from what is active when it is committed. -/
theorem Planned.crosses {step : RunningStep (Work σ Listener)}
    (planned : program.Planned i.configuration i.context step)
    (wellFormed : program.definition.WellFormed) (opening : Opening (.step step) i chronicle)
    (isRunning : i.lifecycle = .running) : step.plan.Crosses (chronicle.active i) := by
  unfold Planned at planned
  cases origin : step.origin with
  | start resume =>
      rw [origin] at planned
      have nothing := opening.unstarted
        (.inl (by simp [Phase.isStarting, origin, Origin.isRecorded]))
      rw [planned.1, active, nothing]
      exact Definition.crosses_initialPlan
  | signal fired drain =>
      rw [origin] at planned
      have some := opening.running isRunning (by simp [Phase.isStarting, origin, Origin.isRecorded])
      rw [planned.1, active, List.isEmpty_eq_false_iff.2 some]
      exact Definition.crosses_plan wellFormed.linked fun t member g isTarget =>
        lt_size_of_transitionsFor wellFormed member isTarget

/-- The crossings of a state so far alternate, and the last one tells whether the state is
active. -/
structure Crossed (state : Nat) (phase : Phase σ Listener) (i : Interpreter Listener)
    (chronicle : Chronicle Listener) : Prop where
  opening : Opening phase i chronicle
  alternate : Crossing.exit.Alternate (crossings chronicle state)
  latest : Crossing.exit.latest (crossings chronicle state) = .into (chronicle.active i) state

theorem Move.crossed {state : Nat} (move : program.Move now phase i happenings next after)
    (wellFormed : program.definition.WellFormed) (settled : program.Settled phase i)
    (crossed : Crossed state phase i chronicle) :
    Crossed state next after (chronicle ++ happenings) := by
  obtain ⟨opening, alternate, latest⟩ := crossed
  suffices goesOn : Crossing.exit.Alternate (crossings (chronicle ++ happenings) state) ∧
      Crossing.exit.latest (crossings (chronicle ++ happenings) state) =
        .into ((chronicle ++ happenings).active after) state from
    ⟨move.opening opening, goesOn.1, goesOn.2⟩
  rw [crossings_append, Crossing.alternate_append, Crossing.latest_append, latest]
  rcases move.publishes_or_keeps with ⟨step, rfl, _, _, published, commits⟩ | ⟨nothing, keeps⟩
  · have crosses :=
      (settled.planned step rfl).crosses wellFormed opening published.wasRunning
    have isStep : crossings happenings state = step.plan.crossings state := by
      simp [crossings, commits, Interpreter.commitment, RunningStep.result]
    have isActive : (chronicle ++ happenings).active after = step.plan.configuration := by
      simp [active, commits, published.configuration, RunningStep.result]
    rw [isStep, isActive]
    exact ⟨⟨alternate, crosses.alternate.1⟩, crosses.alternate.2⟩
  · have isQuiet : crossings happenings state = [] := by simp [crossings, nothing]
    have isActive : (chronicle ++ happenings).active after = chronicle.active i := by
      simp [active, nothing, keeps.configuration]
    rw [isQuiet, isActive]
    exact ⟨⟨alternate, List.isChain_singleton _⟩, rfl⟩

section Run

variable {execution : Execution σ Listener} {interpreter : Interpreter Listener}
variable {limit : Option UInt64} {memory : σ} {code : Routine σ Listener Unit}

theorem RunsTo.crossed (wellFormed : program.definition.WellFormed)
    (isNew : program.interpreter limit = .ok interpreter)
    (run : program.RunsTo (.ofClient interpreter memory code) chronicle execution)
    (inRange : execution.overflowed = false) (state : Nat) :
    ∃ phase : Phase σ Listener, program.Situated phase execution ∧
      Crossed state phase execution.interpreter chronicle := by
  have unstarted : interpreter.lifecycle = .notStarted := by
    rw [interpreter_eq isNew]
    rfl
  refine run.induct (Crossed state) inRange (situated_ofClient (.inl ⟨limit, isNew⟩)) ?_
    fun settled move crossed => move.crossed wellFormed settled crossed
  exact {
    opening := ⟨fun _ => rfl, fun _ => .inr (.inl unstarted), fun _ _ split => by cases split⟩
    alternate := List.isChain_singleton _
    latest := by simp [crossings, Crossing.latest, active, Crossing.into] }

/-- A step leads on from what is active when it takes effect. -/
theorem RunsTo.crosses {after : Execution σ Listener} {commitment : Commitment}
    (wellFormed : program.definition.WellFormed)
    (isNew : program.interpreter limit = .ok interpreter)
    (run : program.RunsTo (.ofClient interpreter memory code) chronicle execution)
    (steps : execution.step? program now = some after)
    (commits : .committed commitment ∈ program.happenings now execution) :
    commitment.step.plan.Crosses (chronicle.active execution.interpreter) := by
  have member : commitment ∈ commitments (program.happenings now execution) :=
    List.mem_filterMap.2 ⟨_, commits, rfl⟩
  obtain ⟨_, isSituated⟩ := run.situated_before (situated_ofClient (.inl ⟨limit, isNew⟩)) steps
  obtain ⟨phase, isCurrent, opening, _⟩ := run.crossed wellFormed isNew isSituated.inRange 0
  rcases isCurrent.moves steps with ⟨_, next, _, move⟩ | ⟨_, nothing, _⟩
  · rcases move.publishes_or_keeps with ⟨step, rfl, _, _, published, isOne⟩ | ⟨nothing, _⟩
    · rw [isOne] at member
      obtain rfl := List.mem_singleton.1 member
      exact (isCurrent.settled.planned step rfl).crosses wellFormed opening published.wasRunning
    · simp [nothing] at member
  · simp [nothing] at member

/-- Entries and exits of a state balance over whole runs. Those of the steps that have taken
effect alternate and begin with an entry; once the initial entry has taken effect the state
has been entered once more than exited if it is active, else as often. A step exits active
states only, and enters none that it leaves active, whatever the targets of its
transitions. -/
theorem entries_balance_exits {machine : MachineSpec}
    (built : machine.build = .ok program.definition)
    (isNew : program.interpreter limit = .ok interpreter)
    (run : program.RunsTo (.ofClient interpreter memory code) chronicle execution) (state : Nat) :
    Crossing.exit.Alternate (crossings chronicle state) ∧
    (commitments chronicle ≠ [] →
      entries chronicle state = exits chronicle state +
        if state ∈ execution.interpreter.configuration then 1 else 0) ∧
    ∀ {now after commitment}, execution.step? program now = some after →
      .committed commitment ∈ program.happenings now execution →
      (state ∈ commitment.step.plan.exited →
        commitments chronicle ≠ [] ∧ state ∈ execution.interpreter.configuration) ∧
      (state ∈ commitment.step.plan.entered →
        commitments chronicle = [] ∨ state ∉ execution.interpreter.configuration ∨
          state ∈ commitment.step.plan.exited) := by
  have wellFormed := MachineSpec.wellFormed_of_build built
  have situated : program.Situated .outside (.ofClient interpreter memory code) :=
    situated_ofClient (.inl ⟨limit, isNew⟩)
  obtain ⟨last, timers, before, lastInRange, same⟩ := run.exists_inRange situated
  obtain ⟨_, _, _, alternate, latest⟩ := before.crossed wellFormed isNew lastInRange state
  refine ⟨alternate, fun some => ?_, fun {now after commitment} steps commits => ?_⟩
  · have counted := Crossing.count_of_alternate alternate
    rw [count_entry_crossings, count_exit_crossings, latest] at counted
    rw [counted, same]
    have isActive : chronicle.active last.interpreter = last.interpreter.configuration := by
      simp [active, some]
    rw [isActive, Crossing.into]
    by_cases member : state ∈ last.interpreter.configuration <;> simp [member]
  · have crosses := run.crosses wellFormed isNew steps commits
    by_cases nothingYet : commitments chronicle = []
    · rw [active, nothingYet] at crosses
      exact ⟨fun isExited => absurd (crosses.exits isExited) StateSet.not_mem_empty,
        fun _ => .inl nothingYet⟩
    · rw [active, List.isEmpty_eq_false_iff.2 nothingYet] at crosses
      refine ⟨fun isExited => ⟨nothingYet, crosses.exits isExited⟩, fun isEntered => .inr ?_⟩
      by_cases isActive : state ∈ execution.interpreter.configuration
      · exact .inr (crosses.enters isEntered isActive)
      · exact .inl isActive

/-- The light has gone on, off and on again. -/
theorem hall_light_crossed :
    crossings (hall.chronicle default 48 visiting) 6 = [.entry, .exit, .entry] ∧
      entries (hall.chronicle default 48 visiting) 6 =
        exits (hall.chronicle default 48 visiting) 6 + 1 := by
  have facts : (crossings (hall.chronicle default 48 visiting) 6,
      (visiting.run hall default 48).interpreter.configuration.contains 6) =
      ([.entry, .exit, .entry], true) := by cbv
  obtain ⟨crossed, isActive⟩ := Prod.mk.inj facts
  have some : commitments (hall.chronicle default 48 visiting) ≠ [] := by
    intro nothing
    simp [crossings, nothing] at crossed
  have isNew : hall.interpreter none = .ok (.fresh MachineSpec.hall.resolved none) := by cbv
  have balance := entries_balance_exits MachineSpec.hall_built isNew
    (runsTo_run default 48 visiting) 6
  refine ⟨crossed, ?_⟩
  rw [balance.2.1 some, if_pos (StateSet.contains_iff.1 isActive)]

end Run

end Program

end Statechart
