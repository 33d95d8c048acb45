import Statechart.Proofs.LegalRuns
import Statechart.Proofs.TimerSignals

/-!
# Timer discipline

A visit of a state lasts from the step that enters it to the step that exits it. A machine
that runs has armed one timer for every delayed transition that has not been taken in the
present visit of its state, for the reading of the clock at which the visit began and the
delay. A machine that is done or stopped has armed none.
-/

namespace Statechart

variable {σ Listener : Type}

/-- A visit of a state: the reading of the clock when it began, and the delayed transitions of
the state, by their places, that have been taken in it. -/
structure Visit where
  since : Duration
  taken : List Nat := []

namespace Visit

/-- A step that leaves a state active may take one of its delayed transitions. -/
def pass (visit : Visit) (state : Nat) (step : StepResult) : Visit :=
  match step.fired with
  | some (key, _) =>
    if key.state = state then { visit with taken := key.index :: visit.taken } else visit
  | none => visit

/-- A delayed transition waits for a deadline: it has not been taken in this visit. -/
def Awaits (definition : Definition) (visit : Visit) (key : TimerKey) (deadline : Duration) :
    Prop :=
  key.index ∉ visit.taken ∧ ∃ delayed, definition.delayed? key = some delayed ∧
    visit.since.add? delayed.delay = some deadline

variable {definition : Definition} {visit : Visit} {key : TimerKey} {deadline : Duration}

theorem since_pass (state : Nat) (step : StepResult) :
    (visit.pass state step).since = visit.since := by
  unfold pass
  split
  · split <;> rfl
  · rfl

theorem mem_taken_pass {step : StepResult} :
    key.index ∈ (visit.pass key.state step).taken ↔ key.index ∈ visit.taken ∨ step.Spends key := by
  unfold pass StepResult.Spends
  cases step.fired with
  | none => simp
  | some pair =>
      obtain ⟨other, generation⟩ := pair
      have sameKey : other = key ↔ other.state = key.state ∧ other.index = key.index := by
        cases other
        cases key
        simp
      by_cases same : other.state = key.state
      · simp [same, sameKey, eq_comm (a := key.index), or_comm]
      · simp [same, sameKey]

theorem awaits_pass {step : StepResult} :
    (visit.pass key.state step).Awaits definition key deadline ↔
      visit.Awaits definition key deadline ∧ ¬ step.Spends key := by
  simp only [Awaits, since_pass, mem_taken_pass, not_or]
  exact and_right_comm

end Visit

/-- The visit of a state after a step. -/
def Commitment.visit? (commitment : Commitment) (state : Nat) (visit : Option Visit) :
    Option Visit :=
  if state ∈ commitment.step.plan.entered then some { since := commitment.clock }
  else if state ∈ commitment.step.plan.exited then none
  else visit.map (·.pass state commitment.step)

/-- The visits of a machine that is restored begin when it is. -/
def Interpreter.visit? (interpreter : Interpreter Listener) (state : Nat) : Option Visit :=
  if interpreter.isRunning = true ∧ state ∈ interpreter.configuration then
    some { since := interpreter.now }
  else none

/-- The present visit of a state, as the steps of a run tell. -/
def Chronicle.visit? (chronicle : Chronicle Listener) (start : Interpreter Listener)
    (state : Nat) : Option Visit :=
  (Chronicle.commitments chronicle).foldl (fun visit commitment => commitment.visit? state visit)
    (start.visit? state)

section

variable {chronicle happenings : Chronicle Listener} {start : Interpreter Listener} {state : Nat}

theorem Chronicle.visit?_append :
    Chronicle.visit? (chronicle ++ happenings) start state =
      (Chronicle.commitments happenings).foldl
        (fun visit commitment => commitment.visit? state visit)
        (Chronicle.visit? chronicle start state) := by
  simp [Chronicle.visit?]

end

namespace Timers

variable {before after timers popped : Timers} {key : TimerKey} {generation : Nat}
variable {deadline limit : Duration} {due : Timer}

/-- A timer is armed for a delayed transition and a deadline. -/
def Arms (timers : Timers) (key : TimerKey) (deadline : Duration) : Prop :=
  ∃ timer ∈ timers.armed, timer.key = key ∧ timer.deadline = deadline

/-- The armed timers, whether they have been handed out or not. -/
def unmarked (timers : Timers) : List Timer :=
  timers.armed.map fun timer => { timer with fired := false }

theorem arms_congr (same : after.unmarked = before.unmarked) :
    after.Arms key deadline ↔ before.Arms key deadline := by
  have arms_iff : ∀ timers : Timers, timers.Arms key deadline ↔
      ∃ timer ∈ timers.unmarked, timer.key = key ∧ timer.deadline = deadline := by
    intro timers
    simp [Arms, unmarked]
  rw [arms_iff, arms_iff, same]

theorem isCurrent_congr (same : after.unmarked = before.unmarked) :
    after.isCurrent key generation = before.isCurrent key generation := by
  have isCurrent_eq : ∀ timers : Timers, timers.isCurrent key generation =
      timers.unmarked.any fun timer => timer.key = key && timer.generation == generation := by
    intro timers
    simp [isCurrent, unmarked, List.any_map, Function.comp_def]
  rw [isCurrent_eq, isCurrent_eq, same]

theorem unmarked_mark {fired : Bool} :
    (timers.mark key generation fired).unmarked = timers.unmarked := by
  simp only [unmarked, mark, List.map_map]
  apply List.map_congr_left
  intro timer _
  simp only [Function.comp_apply]
  split <;> rfl

theorem unmarked_pop? (pop : timers.pop? limit = some (due, popped)) :
    popped.unmarked = timers.unmarked ∧ popped.generations = timers.generations := by
  obtain ⟨_, _, _, rfl⟩ := pop?_spec pop
  exact ⟨unmarked_mark, rfl⟩

theorem unmarked_afterFailure (fired : Option (TimerKey × Nat)) :
    (timers.afterFailure fired).unmarked = timers.unmarked ∧
      (timers.afterFailure fired).generations = timers.generations := by
  cases fired with
  | none => exact ⟨rfl, rfl⟩
  | some pair => exact ⟨unmarked_mark, rfl⟩

end Timers

namespace Interpreter.Retimed

variable {definition : Definition} {step : StepResult} {before after : Timers}
variable {key : TimerKey} {deadline : Duration}
variable (retimed : Interpreter.Retimed definition step before after)

include retimed

/-- The timers of a state that a step enters are new. -/
theorem arms_entered
    (known : ∀ timer ∈ before.armed, (definition.delayed? timer.key).isSome = true)
    (isEntered : key.state ∈ step.plan.entered) :
    after.Arms key deadline ↔
      Visit.Awaits definition { since := before.now } key deadline := by
  have new : ∀ timer ∈ after.armed, timer.key = key → ∃ delayed,
      definition.delayed? key = some delayed ∧
        before.now.add? delayed.delay = some timer.deadline := by
    rintro timer isArmed rfl
    rcases retimed.origin timer isArmed with ⟨wasArmed, _, _, notNew⟩ | ⟨delayed, _, found, sum, _⟩
    · exact absurd ⟨isEntered, known timer wasArmed⟩ notNew
    · exact ⟨delayed, found, sum⟩
  constructor
  · rintro ⟨timer, isArmed, sameKey, rfl⟩
    exact ⟨List.not_mem_nil, new timer isArmed sameKey⟩
  · rintro ⟨_, delayed, found, sum⟩
    obtain ⟨timer, isArmed, sameKey⟩ := retimed.covers key isEntered (by simp [found])
    obtain ⟨other, alsoFound, otherSum⟩ := new timer isArmed sameKey
    obtain rfl := Option.some.inj (found.symm.trans alsoFound)
    exact ⟨timer, isArmed, sameKey, Option.some.inj (otherSum.symm.trans sum)⟩

/-- The timers of other states are as before, but for those of exited states and for the one
that triggered the step. -/
theorem mem_iff {timer : Timer} (notEntered : timer.key.state ∉ step.plan.entered) :
    timer ∈ after.armed ↔
      timer ∈ before.armed ∧ timer.key.state ∉ step.plan.exited ∧ ¬ step.Spends timer.key := by
  constructor
  · intro isArmed
    rcases retimed.origin timer isArmed with ⟨wasArmed, stays, unspent, _⟩ | ⟨_, isEntered, _⟩
    · exact ⟨wasArmed, stays, unspent⟩
    · exact absurd isEntered notEntered
  · rintro ⟨wasArmed, stays, unspent⟩
    exact retimed.kept timer wasArmed stays notEntered unspent

theorem arms_kept (notEntered : key.state ∉ step.plan.entered) :
    after.Arms key deadline ↔
      before.Arms key deadline ∧ key.state ∉ step.plan.exited ∧ ¬ step.Spends key := by
  constructor
  · rintro ⟨timer, isArmed, rfl, rfl⟩
    obtain ⟨wasArmed, leftAlone⟩ := (retimed.mem_iff notEntered).1 isArmed
    exact ⟨⟨timer, wasArmed, rfl, rfl⟩, leftAlone⟩
  · rintro ⟨⟨timer, wasArmed, rfl, rfl⟩, leftAlone⟩
    exact ⟨timer, (retimed.mem_iff notEntered).2 ⟨wasArmed, leftAlone⟩, rfl, rfl⟩

/-- A published step makes of what is awaited what it makes of the timers. -/
theorem arms_iff {visit : Option Visit} {commitment : Commitment}
    (known : ∀ timer ∈ before.armed, (definition.delayed? timer.key).isSome = true)
    (isStep : commitment.step = step) (isClock : commitment.clock = before.now)
    (wasAwaited : before.Arms key deadline ↔
      ∃ during ∈ visit, during.Awaits definition key deadline) :
    after.Arms key deadline ↔
      ∃ during ∈ commitment.visit? key.state visit, during.Awaits definition key deadline := by
  rw [Commitment.visit?, isStep, isClock]
  by_cases isEntered : key.state ∈ step.plan.entered
  · rw [if_pos isEntered, retimed.arms_entered known isEntered]
    simp
  · rw [if_neg isEntered, retimed.arms_kept isEntered, wasAwaited]
    by_cases isExited : key.state ∈ step.plan.exited
    · simp [isExited]
    · cases visit with
      | none => simp
      | some during => simp [isExited, Visit.awaits_pass]

/-- A step that exits a state ends the timers of the visit for good. -/
theorem current {generation : Nat} (issued : generation ≤ before.generations)
    (isCurrent : after.isCurrent key generation = true) :
    before.isCurrent key generation = true ∧ key.state ∉ step.plan.exited := by
  obtain ⟨timer, isArmed, rfl, rfl⟩ := Timers.exists_of_isCurrent isCurrent
  rcases retimed.origin timer isArmed with ⟨wasArmed, stays, _⟩ | ⟨_, _, _, _, _, new, _⟩
  · refine ⟨?_, stays⟩
    simp only [Timers.isCurrent, List.any_eq_true]
    exact ⟨timer, wasArmed, by simp⟩
  · omega

end Interpreter.Retimed

/-- A machine that is done or stopped. -/
def Lifecycle.isOver : Lifecycle → Bool
  | .notStarted | .running => false
  | .done | .stopped => true

namespace Program

variable {program : Program σ Listener} {now : Timestamp} {phase next : Phase σ Listener}
variable {i after : Interpreter Listener} {happenings : Chronicle Listener}

/-- What a move leaves as it is that publishes no step: what is active, and the timers unless
the machine is stopped. Only a timer that is armed comes to be processed. -/
structure Keeps (phase : Phase σ Listener) (i : Interpreter Listener) (next : Phase σ Listener)
    (after : Interpreter Listener) : Prop where
  configuration : after.configuration = i.configuration
  generations : after.timers.generations = i.timers.generations
  timers : after.timers.unmarked = i.timers.unmarked ∨
    (after.timers.armed = [] ∧ after.lifecycle.isOver = true)
  lasts : after.lifecycle.isOver = false → i.lifecycle.isOver = false
  started : after.lifecycle = .running → next.isStarting = false →
    i.lifecycle = .running ∧ phase.isStarting = false
  processed : ∀ key generation, .timer key generation ∈ next.underway →
    .timer key generation ∈ phase.underway ∨ i.timers.isCurrent key generation = true

/-- Other work goes on while the timers stay as they are. -/
theorem keeps_of_same (sameConfiguration : after.configuration = i.configuration)
    (sameTimers : after.timers.unmarked = i.timers.unmarked ∧
      after.timers.generations = i.timers.generations)
    (sameLifecycle : after.lifecycle = i.lifecycle)
    (starting : next.isStarting = phase.isStarting) (processed : next.underway ⊆ phase.underway) :
    Keeps phase i next after where
  configuration := sameConfiguration
  generations := sameTimers.2
  timers := .inl sameTimers.1
  lasts := by simp [sameLifecycle]
  started isRunning notStarting := ⟨sameLifecycle ▸ isRunning, starting ▸ notStarting⟩
  processed _ _ member := .inl (processed member)

theorem keeps_signalled {signal : Signal} {timers : Timers} (source : i.Signalled signal timers)
    (sameConfiguration : after.configuration = i.configuration) (isTimers : after.timers = timers)
    (sameLifecycle : after.lifecycle = i.lifecycle)
    (starting : next.isStarting = phase.isStarting) (processed : next.underway ⊆ phase.underway) :
    Keeps phase i next after := by
  have sameTimers : timers.unmarked = i.timers.unmarked ∧
      timers.generations = i.timers.generations := by
    cases source with
    | event name => exact ⟨rfl, rfl⟩
    | timer due => exact Timers.unmarked_pop? due
  exact keeps_of_same sameConfiguration (isTimers ▸ sameTimers) sameLifecycle starting processed

theorem keeps_stop : Keeps phase i (phase.bidding i.stop.2) i.stop.1 := by
  cases lifecycle : i.lifecycle with
  | stopped =>
      have unchanged : i.stop = (i, none) := by simp [Interpreter.stop, lifecycle]
      rw [unchanged]
      exact keeps_of_same rfl ⟨rfl, rfl⟩ rfl rfl (List.Subset.refl _)
  | notStarted | running | done =>
      have halted : i.stop.1.timers = i.timers.clear ∧ i.stop.1.lifecycle.isOver = true := by
        cases busy : i.busy <;> simp [Interpreter.stop, lifecycle, busy, Lifecycle.isOver]
      have notRunning : i.stop.1.lifecycle ≠ .running := by
        intro isRunning
        simp [isRunning, Lifecycle.isOver] at halted
      refine ⟨(i.stop_spec).2.1, ?_, .inr ⟨?_, halted.2⟩, ?_, ?_, ?_⟩
      · rw [halted.1]
        rfl
      · rw [halted.1]
        rfl
      · simp [halted.2]
      · exact fun isRunning => absurd isRunning notRunning
      · exact fun _ _ member => .inl (Phase.underway_bidding _ member)

/-- Only an armed timer triggers a step. -/
theorem current_of_stepOf? {drain : Drain (Work σ Listener)} {step : RunningStep (Work σ Listener)}
    {key : TimerKey} {generation : Nat}
    (found : Execution.stepOf? program i drain (.timer key generation) = some step) :
    i.timers.isCurrent key generation = true := by
  simp only [Execution.stepOf?] at found
  split at found
  · next isCurrent => exact isCurrent
  · cases found

/-- A move publishes a step, or it commits nothing and keeps what is active and the timers. -/
theorem Move.publishes_or_keeps (move : program.Move now phase i happenings next after) :
    (∃ step, phase = .step step ∧ next.isStarting = false ∧ next.underway = [] ∧
      Interpreter.Published program.definition now step.result i after ∧
      Chronicle.commitments happenings = [i.commitment after program.definition now step.result]) ∨
    (Chronicle.commitments happenings = [] ∧ Keeps phase i next after) := by
  cases move with
  | publish isPublished =>
      exact .inl ⟨_, rfl, rfl, rfl, Interpreter.published_of_commit isPublished,
        Interpreter.commitments_ended isPublished⟩
  | act _ sameOrigin =>
      refine .inr ⟨rfl, keeps_of_same rfl ⟨rfl, rfl⟩ rfl ?_ ?_⟩
      · simp [Phase.isStarting, sameOrigin]
      · simp [Phase.underway, sameOrigin]
  | begin unstarted =>
      refine .inr ⟨rfl, rfl, rfl, .inl rfl, by simp [unstarted, Lifecycle.isOver], ?_, ?_⟩
      · simp [Phase.isStarting, RunningStep.begin, Origin.isRecorded]
      · simp [Phase.underway, RunningStep.begin, Origin.signals, Origin.fired]
  | enter _ _ source =>
      exact .inr ⟨rfl, keeps_signalled source rfl rfl rfl rfl (List.Subset.refl _)⟩
  | wake _ _ source =>
      exact .inr ⟨rfl, keeps_signalled source rfl rfl rfl rfl (List.Subset.refl _)⟩
  | stop =>
      refine .inr ⟨?_, keeps_stop⟩
      cases lifecycle : i.lifecycle <;>
        simp [Interpreter.requested, lifecycle, Happening.committed?]
  | @take _ signal queue drain step _ _ found =>
      have begun := begun_of_stepOf? found
      refine .inr ⟨rfl, rfl, rfl, .inl rfl, id, fun isRunning _ => ⟨isRunning, rfl⟩, ?_⟩
      intro key generation member
      rw [begun] at member
      cases signal with
      | event name => simp [Phase.underway, RunningStep.begin, Origin.signals, Origin.fired,
          Signal.fired] at member
      | timer other number =>
          obtain ⟨rfl, rfl⟩ : other = key ∧ number = generation := by
            simpa [Phase.underway, RunningStep.begin, Origin.signals, Origin.fired,
              Signal.fired, eq_comm] using member
          exact .inr (current_of_stepOf? found)
  | release =>
      refine .inr ⟨rfl, keeps_of_same rfl ⟨rfl, rfl⟩ rfl ?_ ?_⟩
      · apply Bool.eq_false_iff.2
        exact fun isStarting => Bool.false_ne_true (Phase.starting_of_bidding isStarting)
      · simp [Phase.underway_outside]
  | discard isDiscarded =>
      have notRunning := Interpreter.halted_of_discarded isDiscarded
      exact .inr ⟨rfl, rfl, rfl, .inl rfl, id, fun isRunning => absurd isRunning notRunning,
        fun _ _ member => (by cases member)⟩
  | abandon isStart =>
      refine .inr ⟨rfl, rfl, rfl, .inl rfl, ?_, ?_, ?_⟩
      · cases lifecycle : i.lifecycle <;>
          simp [Interpreter.abandonStart, Interpreter.release, lifecycle, Lifecycle.isOver]
      · cases lifecycle : i.lifecycle <;>
          simp [Interpreter.abandonStart, Interpreter.release, lifecycle]
      · simp [Phase.underway_outside]
  | fail isSignal =>
      refine .inr ⟨rfl, keeps_of_same rfl (Timers.unmarked_afterFailure _) rfl ?_ ?_⟩
      · simp [Phase.isStarting, isSignal, Origin.isRecorded]
      · exact List.nil_subset _
  | _ => exact .inr ⟨rfl, keeps_of_same rfl ⟨rfl, rfl⟩ rfl rfl (List.Subset.refl _)⟩

/-- The states of a machine that is running are the ones that are visited, and until it is done
or stopped the timers that are armed are the ones that the visits await. -/
structure Timely (program : Program σ Listener) (start : Interpreter Listener)
    (phase : Phase σ Listener) (i : Interpreter Listener) (chronicle : Chronicle Listener) :
    Prop where
  unstarted : phase.isStarting = true ∨ i.lifecycle = .notStarted →
    ∀ state, chronicle.visit? start state = none
  active : i.lifecycle = .running → phase.isStarting = false →
    ∀ state, state ∈ i.configuration ↔ (chronicle.visit? start state).isSome = true
  armed : i.lifecycle.isOver = false → ∀ key deadline, i.timers.Arms key deadline ↔
    ∃ visit ∈ chronicle.visit? start key.state, visit.Awaits program.definition key deadline

/-- After a step what it has entered is active, and what was active and is not exited. -/
theorem Planned.mem_configuration {configuration : Configuration} {context : Context}
    {step : RunningStep (Work σ Listener)} {n : Nat}
    (planned : program.Planned configuration context step) :
    n ∈ step.plan.configuration ↔ n ∈ step.plan.entered ∨
      (step.origin.isRecorded = true ∧ n ∈ configuration ∧ n ∉ step.plan.exited) := by
  unfold Planned at planned
  cases origin : step.origin with
  | start resume =>
      rw [origin] at planned
      simp [planned.1, Definition.initialPlan, Origin.isRecorded, StateSet.mem_toList]
  | signal fired drain =>
      rw [origin] at planned
      rw [planned.1, Definition.mem_after, Definition.mem_retained, Definition.plan_entered,
        Definition.plan_exited, List.mem_reverse, StateSet.mem_toList, StateSet.mem_toList,
        Definition.mem_exiting, or_comm]
      refine or_congr_right ?_
      simp only [Origin.isRecorded, true_and, not_and, not_exists]
      exact and_congr_right fun isActive => ⟨fun apart _ => apart, fun apart => apart isActive⟩

section Timely

variable {start : Interpreter Listener} {chronicle : Chronicle Listener}

theorem visit?_of_quiet (nothing : Chronicle.commitments happenings = []) (state : Nat) :
    Chronicle.visit? (chronicle ++ happenings) start state = chronicle.visit? start state := by
  rw [Chronicle.visit?_append, nothing]
  rfl

theorem Timely.keep (timely : program.Timely start phase i chronicle)
    (unstarted : next.isStarting = true ∨ after.lifecycle = .notStarted →
      phase.isStarting = true ∨ i.lifecycle = .notStarted)
    (nothing : Chronicle.commitments happenings = []) (keeps : Keeps phase i next after) :
    program.Timely start next after (chronicle ++ happenings) where
  unstarted isUnstarted state := by
    rw [visit?_of_quiet nothing]
    exact timely.unstarted (unstarted isUnstarted) state
  active isRunning notStarting state := by
    obtain ⟨wasRunning, wasNotStarting⟩ := keeps.started isRunning notStarting
    rw [visit?_of_quiet nothing, keeps.configuration]
    exact timely.active wasRunning wasNotStarting state
  armed lasts key deadline := by
    have same := keeps.timers.resolve_right fun cleared => by simp [lasts] at cleared
    rw [visit?_of_quiet nothing, Timers.arms_congr same]
    exact timely.armed (keeps.lasts lasts) key deadline

theorem Timely.publish {step : RunningStep (Work σ Listener)}
    (timely : program.Timely start (.step step) i chronicle)
    (booked : program.Booked (.step step) i)
    (planned : program.Planned i.configuration i.context step)
    (published : Interpreter.Published program.definition now step.result i after)
    (notStarting : next.isStarting = false)
    (commits : Chronicle.commitments happenings =
      [i.commitment after program.definition now step.result]) :
    program.Timely start next after (chronicle ++ happenings) := by
  have visit?_eq : ∀ state, Chronicle.visit? (chronicle ++ happenings) start state =
      (i.commitment after program.definition now step.result).visit? state
        (chronicle.visit? start state) := by
    intro state
    rw [Chronicle.visit?_append, commits]
    rfl
  obtain ⟨timers, leads, outcome⟩ := published.outcome
  refine ⟨fun isUnstarted => ?_, fun isRunning _ state => ?_, fun lasts key deadline => ?_⟩
  · rcases outcome with ⟨isDone, _⟩ | ⟨isRunning, _⟩
    · simp [notStarting, isDone] at isUnstarted
    · simp [notStarting, isRunning] at isUnstarted
  · have wasVisited : step.origin.isRecorded = true ∧ state ∈ i.configuration ↔
        (chronicle.visit? start state).isSome = true := by
      cases isRecorded : step.origin.isRecorded with
      | false =>
          have none := timely.unstarted (.inl (by simp [Phase.isStarting, isRecorded])) state
          simp [none]
      | true =>
          have active := timely.active published.wasRunning
            (by simp [Phase.isStarting, isRecorded]) state
          simp [active]
    have isPlan : after.configuration = step.plan.configuration := published.configuration
    rw [isPlan, planned.mem_configuration, ← and_assoc, wasVisited, visit?_eq, Commitment.visit?]
    by_cases isEntered : state ∈ step.plan.entered
    · simp [Interpreter.commitment, RunningStep.result, isEntered]
    · by_cases isExited : state ∈ step.plan.exited
      · simp [Interpreter.commitment, RunningStep.result, isEntered, isExited]
      · simp [Interpreter.commitment, RunningStep.result, isEntered, isExited]
  · have retimed := Interpreter.retimed_of_timersAfter booked.sorted leads
    rcases outcome with ⟨isDone, _⟩ | ⟨_, rfl, _⟩
    · simp [isDone, Lifecycle.isOver] at lasts
    · rw [visit?_eq]
      refine retimed.arms_iff booked.known rfl rfl ?_
      apply timely.armed
      simp [published.wasRunning, Lifecycle.isOver]

/-- Every move keeps the timers on time. -/
theorem Move.timely (move : program.Move now phase i happenings next after)
    (settled : program.Settled phase i) (booked : program.Booked phase i)
    (timely : program.Timely start phase i chronicle) :
    program.Timely start next after (chronicle ++ happenings) := by
  rcases move.publishes_or_keeps with
    ⟨step, rfl, notStarting, _, published, commits⟩ | ⟨nothing, keeps⟩
  · exact timely.publish booked (settled.planned step rfl) published notStarting commits
  · exact timely.keep (fun isUnstarted => (move.unstarted isUnstarted).1) nothing keeps

/-- What is active when a machine resumes is awaited from then on. -/
theorem arms_assemble {definition : Definition} {configuration : Configuration}
    {context : Context} {history : History} {key : TimerKey} {deadline : Duration} :
    (Interpreter.assemble definition .running configuration context history :
        Interpreter Listener).timers.Arms key deadline ↔
      key.state ∈ configuration ∧
        Visit.Awaits definition { since := .zero } key deadline := by
  have arming : Timers.Arming (definition.timersOf configuration.toList) {}
      (Interpreter.assemble definition .running configuration context history :
        Interpreter Listener).timers :=
    Interpreter.arming_assemble configuration context history
  have new : ∀ timer ∈ (Interpreter.assemble definition .running configuration context history :
      Interpreter Listener).timers.armed, timer.key.state ∈ configuration ∧
        ∃ delayed, definition.delayed? timer.key = some delayed ∧
          Duration.zero.add? delayed.delay = some timer.deadline := by
    intro timer isArmed
    rcases arming.origin timer isArmed with ⟨before, _⟩ | ⟨delay, named, sum, _⟩
    · cases before
    · obtain ⟨isThere, delayed, found, rfl⟩ := Definition.mem_timersOf.1 named
      exact ⟨StateSet.mem_toList.1 isThere, delayed, found, sum⟩
  constructor
  · rintro ⟨timer, isArmed, rfl, rfl⟩
    obtain ⟨isActive, awaited⟩ := new timer isArmed
    exact ⟨isActive, List.not_mem_nil, awaited⟩
  · rintro ⟨isActive, _, delayed, found, sum⟩
    have named : key ∈ (definition.timersOf configuration.toList).map (·.1) :=
      Definition.mem_keys_timersOf.2 ⟨StateSet.mem_toList.2 isActive, by simp [found]⟩
    obtain ⟨timer, isArmed, rfl⟩ := arming.covers key named
    obtain ⟨_, other, alsoFound, otherSum⟩ := new timer isArmed
    obtain rfl := Option.some.inj (found.symm.trans alsoFound)
    exact ⟨timer, isArmed, rfl, Option.some.inj (otherSum.symm.trans sum)⟩

theorem timely_assemble {lifecycle : Lifecycle} {configuration : Configuration}
    {context : Context} {history : History} :
    program.Timely (.assemble program.definition lifecycle configuration context history) .outside
      (.assemble program.definition lifecycle configuration context history) [] := by
  by_cases isRunning : lifecycle = .running
  · subst isRunning
    have atZero : (Interpreter.assemble program.definition .running configuration context history :
        Interpreter Listener).now = .zero :=
      (Interpreter.arming_assemble configuration context history).now
    have visits : ∀ state, Chronicle.visit? []
        (Interpreter.assemble program.definition .running configuration context history :
          Interpreter Listener) state =
        if state ∈ configuration then some { since := .zero } else none := by
      intro state
      rw [Chronicle.visit?, Chronicle.commitments_nil, List.foldl_nil, Interpreter.visit?, atZero]
      simp [Interpreter.assemble, Interpreter.isRunning]
    refine ⟨fun isUnstarted => ?_, fun _ _ state => ?_, fun _ key deadline => ?_⟩
    · simp [Phase.isStarting, Interpreter.assemble] at isUnstarted
    · rw [visits]
      by_cases isActive : state ∈ configuration <;> simp [isActive, Interpreter.assemble]
    · rw [arms_assemble, visits]
      by_cases isActive : key.state ∈ configuration <;> simp [isActive]
  · have nowhere : ∀ state, Chronicle.visit? []
        (Interpreter.assemble program.definition lifecycle configuration context history :
          Interpreter Listener) state = none := by
      intro state
      simp [Chronicle.visit?, Interpreter.visit?, Interpreter.assemble, Interpreter.isRunning,
        isRunning]
    refine ⟨fun _ => nowhere, fun other => absurd other isRunning, fun _ key deadline => ?_⟩
    rw [nowhere]
    simp [Timers.Arms, Interpreter.assemble, isRunning]

theorem Begins.timely (begins : program.Begins i) : program.Timely i .outside i [] := by
  obtain ⟨_, _, _, _, rfl⟩ := begins.exists_assemble
  exact timely_assemble

end Timely

/-- What is known of a timer from some point of a run on: once its state has been exited, it
is neither armed nor processed any more. -/
structure Expires (key : TimerKey) (generation : Nat) (phase : Phase σ Listener)
    (i : Interpreter Listener) (chronicle : Chronicle Listener) : Prop where
  issued : generation ≤ i.timers.generations
  gone : (∃ commitment ∈ Chronicle.commitments chronicle,
      key.state ∈ commitment.step.plan.exited) →
    i.timers.isCurrent key generation = false ∧ .timer key generation ∉ phase.underway

section Expires

variable {key : TimerKey} {generation : Nat} {chronicle : Chronicle Listener}

theorem Expires.keep (expires : Expires key generation phase i chronicle)
    (nothing : Chronicle.commitments happenings = []) (keeps : Keeps phase i next after) :
    Expires key generation next after (chronicle ++ happenings) where
  issued := keeps.generations ▸ expires.issued
  gone isExited := by
    rw [Chronicle.commitments_append, nothing, List.append_nil] at isExited
    obtain ⟨notCurrent, notProcessed⟩ := expires.gone isExited
    constructor
    · rcases keeps.timers with same | ⟨isEmpty, _⟩
      · rw [Timers.isCurrent_congr same]
        exact notCurrent
      · simp [Timers.isCurrent, isEmpty]
    · intro processed
      rcases keeps.processed key generation processed with before | isCurrent
      · exact notProcessed before
      · exact Bool.false_ne_true (notCurrent.symm.trans isCurrent)

theorem Expires.publish {step : RunningStep (Work σ Listener)}
    (expires : Expires key generation (.step step) i chronicle) (sorted : i.timers.Sorted)
    (published : Interpreter.Published program.definition now step.result i after)
    (atRest : next.underway = [])
    (commits : Chronicle.commitments happenings =
      [i.commitment after program.definition now step.result]) :
    Expires key generation next after (chronicle ++ happenings) := by
  obtain ⟨timers, leads, outcome⟩ := published.outcome
  have retimed := Interpreter.retimed_of_timersAfter sorted leads
  have issued := Nat.le_trans expires.issued retimed.grows
  rcases outcome with ⟨_, cleared, _⟩ | ⟨_, rfl, _⟩
  · refine ⟨?_, fun _ => ⟨?_, by simp [atRest]⟩⟩
    · rw [cleared]
      exact issued
    · rw [cleared]
      rfl
  · refine ⟨issued, fun isExited => ⟨Bool.eq_false_iff.2 fun isCurrent => ?_, by simp [atRest]⟩⟩
    obtain ⟨wasCurrent, stays⟩ := retimed.current expires.issued isCurrent
    rw [Chronicle.commitments_append, commits] at isExited
    obtain ⟨commitment, member, isExited⟩ := isExited
    rcases List.mem_append.1 member with before | last
    · have notCurrent := (expires.gone ⟨commitment, before, isExited⟩).1
      exact Bool.false_ne_true (notCurrent.symm.trans wasCurrent)
    · obtain rfl := List.mem_singleton.1 last
      exact stays isExited

theorem Move.expires (move : program.Move now phase i happenings next after)
    (booked : program.Booked phase i) (expires : Expires key generation phase i chronicle) :
    Expires key generation next after (chronicle ++ happenings) := by
  rcases move.publishes_or_keeps with ⟨step, rfl, _, atRest, published, commits⟩ | ⟨nothing, keeps⟩
  · exact expires.publish booked.sorted published atRest commits
  · exact expires.keep nothing keeps

end Expires

/-- The transitions of a step lead to states of the tree. -/
theorem lt_size_of_transitionsFor (wellFormed : program.definition.WellFormed)
    {configuration : Configuration} {context : Context} {fired : Option (TimerKey × Nat)}
    {event : String} {t : Transition} {g : Nat}
    (member : t ∈ program.transitionsFor configuration context fired event)
    (isTarget : t.target = some g) : g < program.definition.size := by
  cases fired with
  | none =>
      obtain ⟨_, _, n, _, declared⟩ := Definition.exists_declared_of_select member
      exact wellFormed.target declared isTarget
  | some pair =>
      obtain ⟨key, generation⟩ := pair
      cases isDelayed : program.definition.delayed? key with
      | none => simp [transitionsFor, isDelayed] at member
      | some delayed =>
          obtain rfl : t = delayed.transition := by simpa [transitionsFor, isDelayed] using member
          exact wellFormed.target (delayed_declared isDelayed) isTarget

/-- The step of a signal enters no state that it leaves active. -/
theorem Planned.not_entered {configuration : Configuration} {context : Context}
    {step : RunningStep (Work σ Listener)} {n : Nat}
    (planned : program.Planned configuration context step)
    (wellFormed : program.definition.WellFormed) (isRecorded : step.origin.isRecorded = true)
    (isActive : n ∈ configuration) (stays : n ∉ step.plan.exited) : n ∉ step.plan.entered := by
  unfold Planned at planned
  cases origin : step.origin with
  | start resume => simp [origin, Origin.isRecorded] at isRecorded
  | signal fired drain =>
      rw [origin] at planned
      rw [planned.1, Definition.plan_exited, List.mem_reverse, StateSet.mem_toList,
        Definition.mem_exiting] at stays
      rw [planned.1, Definition.plan_entered, StateSet.mem_toList]
      intro isEntered
      refine Definition.not_retained_of_entering wellFormed.linked ?_ isEntered ?_
      · exact fun t member g isTarget => lt_size_of_transitionsFor wellFormed member isTarget
      · apply Definition.mem_retained.2
        exact ⟨isActive, fun t member touches => stays ⟨isActive, t, member, touches⟩⟩

section Run

variable {start execution middle : Execution σ Listener} {interpreter : Interpreter Listener}
variable {memory : σ} {code : Routine σ Listener Unit} {chronicle later : Chronicle Listener}

theorem RunsTo.timely (begins : program.Begins interpreter)
    (run : program.RunsTo (.ofClient interpreter memory code) chronicle execution)
    (inRange : execution.overflowed = false) :
    ∃ phase : Phase σ Listener, program.Situated phase execution ∧
      program.Booked phase execution.interpreter ∧
      program.Timely interpreter phase execution.interpreter chronicle :=
  run.induct
    (fun phase i chronicle => program.Booked phase i ∧ program.Timely interpreter phase i chronicle)
    inRange (situated_ofClient begins) ⟨begins.booked, begins.timely⟩
    fun settled move holds => ⟨move.booked holds.1, move.timely settled holds.1 holds.2⟩

theorem not_exited_of_underway {earlier : Chronicle Listener} {timer : Timer}
    (begins : program.Begins interpreter)
    (run : program.RunsTo (.ofClient interpreter memory code) earlier middle)
    (onward : program.RunsTo middle later execution) (inRange : execution.overflowed = false)
    (isArmed : timer ∈ middle.interpreter.timers.armed)
    (processed : .timer timer.key timer.generation ∈ execution.underway) :
    ∀ commitment ∈ Chronicle.commitments later,
      timer.key.state ∉ commitment.step.plan.exited := by
  have midway := run.inRange_of_onward (situated_ofClient begins) onward inRange
  obtain ⟨phase, situated, booked, _⟩ := run.timely begins midway
  have fromThere : Expires timer.key timer.generation phase middle.interpreter [] :=
    ⟨booked.issued timer isArmed, by simp⟩
  obtain ⟨current, isCurrent, _, expires⟩ := onward.induct
    (fun phase i chronicle => program.Booked phase i ∧
      Expires timer.key timer.generation phase i chronicle)
    inRange situated ⟨booked, fromThere⟩
    fun _ move holds => ⟨move.booked holds.1, move.expires holds.1 holds.2⟩
  intro commitment member isExited
  apply (expires.gone ⟨commitment, member, isExited⟩).2
  rw [← isCurrent.arranged.underway]
  exact processed

/-- A step leaves the timers of a state alone that it does not exit, but for the one that it
takes. -/
theorem Situated.timers_unchanged {after : Execution σ Listener} {commitment : Commitment}
    {timer : Timer} (situated : program.Situated phase execution)
    (booked : program.Booked phase execution.interpreter)
    (wellFormed : program.definition.WellFormed)
    (steps : execution.step? program now = some after)
    (commits : .committed commitment ∈ program.happenings now execution)
    (isRecorded : commitment.step.recorded = true)
    (isRunning : after.interpreter.isRunning = true)
    (isActive : timer.key.state ∈ execution.interpreter.configuration)
    (stays : timer.key.state ∉ commitment.step.plan.exited) :
    timer ∈ after.interpreter.timers.armed ↔
      timer ∈ execution.interpreter.timers.armed ∧ ¬ commitment.step.Spends timer.key := by
  have member : commitment ∈ Chronicle.commitments (program.happenings now execution) :=
    List.mem_filterMap.2 ⟨_, commits, rfl⟩
  rcases situated.moves steps with ⟨_, next, _, move⟩ | ⟨_, nothing, _⟩
  · rcases move.publishes_or_keeps with ⟨step, rfl, _, _, published, isOne⟩ | ⟨nothing, _⟩
    · rw [isOne] at member
      obtain rfl := List.mem_singleton.1 member
      obtain ⟨timers, leads, ⟨isDone, _⟩ | ⟨_, rfl, _⟩⟩ := published.outcome
      · simp [Interpreter.isRunning, isDone] at isRunning
      · have retimed := Interpreter.retimed_of_timersAfter booked.sorted leads
        have planned := situated.settled.planned step rfl
        have notEntered := planned.not_entered wellFormed isRecorded isActive stays
        rw [retimed.mem_iff notEntered]
        exact and_congr_right fun _ => and_iff_right stays
    · simp [nothing] at member
  · simp [nothing] at member

/-- Timers keep to the visits of states. While a machine is idle and running the armed timers
are those of the delayed transitions of active states that have not been taken in the present
visit, each once, for the clock at the beginning of the visit and the delay, and none is
marked; a machine that is done or stopped has none. So a timer never triggers a step once its
state has been exited, and a step that does not exit a state leaves its timers as they are. -/
theorem timer_discipline {machine : MachineSpec} (built : machine.build = .ok program.definition)
    (begins : program.Begins interpreter)
    (run : program.RunsTo (.ofClient interpreter memory code) chronicle execution)
    (inRange : execution.overflowed = false) :
    (execution.interpreter.isRunning = true → execution.interpreter.busy = false →
      (∀ state, state ∈ execution.interpreter.configuration ↔
        (chronicle.visit? interpreter state).isSome = true) ∧
      (∀ key deadline, execution.interpreter.timers.Arms key deadline ↔
        ∃ visit ∈ chronicle.visit? interpreter key.state,
          visit.Awaits program.definition key deadline) ∧
      (execution.interpreter.timers.armed.map (·.key)).Nodup ∧
      ∀ timer ∈ execution.interpreter.timers.armed, timer.fired = false) ∧
    (execution.interpreter.lifecycle = .done ∨ execution.interpreter.lifecycle = .stopped →
      execution.interpreter.timers.armed = []) ∧
    (∀ {earlier middle later timer},
      program.RunsTo (.ofClient interpreter memory code) earlier middle →
      program.RunsTo middle later execution → timer ∈ middle.interpreter.timers.armed →
      .timer timer.key timer.generation ∈ execution.underway →
      ∀ commitment ∈ Chronicle.commitments later,
        timer.key.state ∉ commitment.step.plan.exited) ∧
    (∀ {now after commitment timer}, execution.step? program now = some after →
      .committed commitment ∈ program.happenings now execution →
      commitment.step.recorded = true → after.interpreter.isRunning = true →
      timer.key.state ∈ execution.interpreter.configuration →
      timer.key.state ∉ commitment.step.plan.exited →
      (timer ∈ after.interpreter.timers.armed ↔
        timer ∈ execution.interpreter.timers.armed ∧ ¬ commitment.step.Spends timer.key)) := by
  obtain ⟨phase, situated, booked, timely⟩ := run.timely begins inRange
  refine ⟨fun isRunning isIdle => ?_, fun isOver => ?_, ?_, ?_⟩
  · have running : execution.interpreter.lifecycle = .running := by
      simpa [Interpreter.isRunning] using isRunning
    obtain rfl := situated.fits.eq_outside isIdle (by simp [running])
    refine ⟨timely.active running rfl, timely.armed (by simp [running, Lifecycle.isOver]),
      booked.sorted.nodup, fun timer isArmed => ?_⟩
    have noQueue := (situated.settled.tidy.idle isIdle).1
    have unsent := booked.booked timer isArmed
    simp only [outstanding, noQueue, Phase.underway, List.append_nil, List.count_nil] at unsent
    by_contra isFired
    simp [isFired] at unsent
  · apply booked.halted
    rcases isOver with isDone | isStopped
    · exact .inl (by simp [isDone])
    · exact .inl (by simp [isStopped])
  · exact fun before onward isArmed processed =>
      not_exited_of_underway begins before onward inRange isArmed processed
  · exact fun steps commits isRecorded isRunning isActive stays =>
      situated.timers_unchanged booked (MachineSpec.wellFormed_of_build built) steps commits
        isRecorded isRunning isActive stays

/-- The door is open and the light is on again: both have their timers, as their visits
await. -/
theorem hall_timers_await_visits :
    (visiting.run hall default 48).interpreter.timers.armed =
        [⟨⟨3, 0⟩, .ofMillis 90, 2, false⟩, ⟨⟨6, 0⟩, .ofMillis 70, 3, false⟩] ∧
      ∀ key deadline, (visiting.run hall default 48).interpreter.timers.Arms key deadline ↔
        ∃ visit ∈ (hall.chronicle default 48 visiting).visit?
          (.fresh MachineSpec.hall.resolved none) key.state,
          visit.Awaits hall.definition key deadline := by
  have facts : ((visiting.run hall default 48).overflowed,
      (visiting.run hall default 48).interpreter.isRunning,
      (visiting.run hall default 48).interpreter.busy,
      (visiting.run hall default 48).interpreter.timers.armed) =
      (false, true, false,
        [⟨⟨3, 0⟩, .ofMillis 90, 2, false⟩, ⟨⟨6, 0⟩, .ofMillis 70, 3, false⟩]) := by cbv
  obtain ⟨inRange, facts⟩ := Prod.mk.inj facts
  obtain ⟨isRunning, facts⟩ := Prod.mk.inj facts
  obtain ⟨isIdle, armed⟩ := Prod.mk.inj facts
  have discipline := timer_discipline MachineSpec.hall_built begins_hall
    (runsTo_run default 48 visiting) inRange
  exact ⟨armed, (discipline.1 isRunning isIdle).2.1⟩

end Run

end Program

end Statechart
