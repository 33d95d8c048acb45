import Statechart.Interpreter
import Statechart.Proofs.Plan

/-!
# Between two steps

What every operation on an interpreter keeps: nothing waits while it is idle, before its
start it is idle and in its initial configuration, and timers are armed for active
states only. A committed step keeps this because it disarms the timers of the states it
exits and arms those of the states it enters.
-/

namespace Statechart

namespace Timers

variable {timers : Timers} {timer : Timer} {limit : Duration}

theorem mem_place {new : Timer} {list : List Timer} (member : timer ∈ place new list) :
    timer = new ∨ timer ∈ list := by
  induction list with
  | nil => exact .inl (List.mem_singleton.1 member)
  | cons head rest ih =>
      simp only [place] at member
      split at member
      · exact List.mem_cons.1 member
      · split at member
        · exact (List.mem_cons.1 member).imp_right (.tail _)
        · rcases List.mem_cons.1 member with rfl | later
          · exact .inr (.head _)
          · exact (ih later).imp_right (.tail _)

theorem mem_armAll {entries : List (TimerKey × Duration)}
    (member : timer ∈ (timers.armAll entries).1.armed) :
    timer ∈ timers.armed ∨ timer.key ∈ entries.map (·.1) := by
  induction entries generalizing timers with
  | nil => exact .inl member
  | cons entry rest ih =>
      simp only [armAll] at member
      split at member
      · next next armed =>
        rcases ih member with before | later
        · simp only [arm?, Option.bind_eq_bind, Option.bind_eq_some_iff] at armed
          obtain ⟨deadline, _, armed⟩ := armed
          obtain rfl := Option.some.inj armed
          rcases mem_place before with rfl | before
          · exact .inr (.head _)
          · exact .inl before
        · exact .inr (.tail _ later)
      · exact .inl member

theorem mem_disarmAll {states : List Nat} :
    timer ∈ (timers.disarmAll states).armed ↔ timer ∈ timers.armed ∧ timer.key.state ∉ states := by
  induction states generalizing timers with
  | nil => simp [disarmAll]
  | cons state rest ih =>
      rw [disarmAll, List.foldl_cons, ← disarmAll, ih]
      simp [disarm, and_assoc]

theorem exists_of_mem_mark {key : TimerKey} {generation : Nat} {fired : Bool}
    (member : timer ∈ (timers.mark key generation fired).armed) :
    ∃ before ∈ timers.armed, before.key = timer.key := by
  obtain ⟨before, isArmed, rfl⟩ := List.mem_map.1 member
  refine ⟨before, isArmed, ?_⟩
  split <;> rfl

theorem exists_of_pop? {due : Timer} {popped : Timers}
    (pop : timers.pop? limit = some (due, popped)) (member : timer ∈ popped.armed) :
    ∃ before ∈ timers.armed, before.key = timer.key := by
  simp only [pop?, Option.bind_eq_bind, Option.bind_eq_some_iff] at pop
  obtain ⟨first, _, pop⟩ := pop
  obtain ⟨rfl, rfl⟩ := Prod.mk.inj (Option.some.inj pop)
  exact exists_of_mem_mark member

theorem exists_of_isCurrent {key : TimerKey} {generation : Nat}
    (current : timers.isCurrent key generation = true) :
    ∃ timer ∈ timers.armed, timer.key = key ∧ timer.generation = generation := by
  simpa [isCurrent] using current

end Timers

theorem Definition.state_of_timersOf {definition : Definition} {states : List Nat}
    {key : TimerKey} (member : key ∈ (definition.timersOf states).map (·.1)) :
    key.state ∈ states := by
  simp only [timersOf, List.mem_map, List.mem_flatMap, List.mem_mapIdx] at member
  obtain ⟨_, ⟨state, isThere, _, _, rfl⟩, rfl⟩ := member
  exact isThere

/-- A plan leads on from a configuration: what is active and not exited stays active, and
what is entered becomes active. -/
structure Plan.Continues (plan : Plan) (active : Configuration) : Prop where
  kept : ∀ {n}, n ∈ active → n ∉ plan.exited → n ∈ plan.configuration
  entered : ∀ {n}, n ∈ plan.entered → n ∈ plan.configuration

namespace Definition

variable {definition : Definition} {active : Configuration} {transitions : List Transition}

theorem continues_plan : (definition.plan active transitions).Continues active where
  kept {n} isActive notExited := by
    rw [plan_exited, List.mem_reverse] at notExited
    refine mem_after.2 (.inl (mem_retained.2 ⟨isActive, fun t member touches => notExited ?_⟩))
    exact mem_exiting.2 ⟨isActive, t, member, touches⟩
  entered isEntered := mem_after.2 (.inr isEntered)

theorem continues_initialPlan :
    definition.initialPlan.Continues definition.initialConfiguration where
  kept isActive _ := isActive
  entered isEntered := isEntered

end Definition

namespace Interpreter

variable {Listener : Type} {definition : Definition} {interpreter : Interpreter Listener}

/-- What holds of an interpreter between any two small steps. -/
structure Tidy (definition : Definition) (interpreter : Interpreter Listener) : Prop where
  idle : interpreter.busy = false → interpreter.queue = [] ∧ interpreter.pendingStop = none
  unstarted : interpreter.lifecycle = .notStarted →
    interpreter.busy = false ∧ interpreter.configuration = definition.initialConfiguration
  armed : ∀ timer ∈ interpreter.timers.armed, timer.key.state ∈ interpreter.configuration

/-- Nothing of what was armed is left, or it is armed still. -/
theorem armed_timersAfter {step : StepResult} {timer : Timer}
    (member : timer ∈ (interpreter.timersAfter definition step).1.armed) :
    (timer ∈ interpreter.timers.armed ∧ timer.key.state ∉ step.plan.exited) ∨
      timer.key.state ∈ step.plan.entered := by
  unfold timersAfter at member
  rcases Timers.mem_armAll member with before | entered
  · obtain ⟨before, notExited⟩ := Timers.mem_disarmAll.1 before
    refine .inl ⟨?_, notExited⟩
    split at before
    · exact (List.mem_filter.1 before).1
    · exact before
  · exact .inr (Definition.state_of_timersOf entered)

/-- A stop changes neither what is active nor who owns the interpreter. -/
theorem stop_spec (interpreter : Interpreter Listener) :
    interpreter.stop.1.busy = interpreter.busy ∧
      interpreter.stop.1.configuration = interpreter.configuration ∧
      interpreter.stop.1.context = interpreter.context ∧
      interpreter.stop.1.lifecycle ≠ .notStarted ∧
      (interpreter.stop.1 = interpreter ∨
        interpreter.stop.1.queue = [] ∧ interpreter.stop.1.timers.armed = [] ∧
          (interpreter.busy = false →
            interpreter.stop.1.pendingStop = interpreter.pendingStop)) := by
  cases lifecycle : interpreter.lifecycle <;> cases busy : interpreter.busy <;>
    simp [Interpreter.stop, lifecycle, busy, Timers.clear]

/-- While a step is in progress the last notification is put off. -/
theorem stop_of_busy (isBusy : interpreter.busy = true) : interpreter.stop.2 = none := by
  cases lifecycle : interpreter.lifecycle <;> simp [Interpreter.stop, lifecycle, isBusy]

/-- All that a published step does. -/
structure Published (definition : Definition) (now : Timestamp) (step : StepResult)
    (before after : Interpreter Listener) : Prop where
  wasRunning : before.lifecycle = .running
  configuration : after.configuration = step.plan.configuration
  context : after.context = step.context
  snapshot : after.snapshot = ⟨Configuration.value definition.toStateTree after.configuration,
    after.context, after.lifecycle.status⟩
  history : after.history =
    if step.recorded then
      before.history.push ⟨step.event, before.snapshot.value, after.snapshot.value, now⟩
    else before.history
  /-- A machine that is done takes no more events and has no timers. -/
  outcome : ∃ timers, before.timersAfter definition step = (timers, true) ∧
    ((after.lifecycle = .done ∧ after.timers = timers.clear ∧ after.queue = before.queue) ∨
      (after.lifecycle = .running ∧ after.timers = timers ∧
        after.queue = before.queue ++ step.raised.map .event))
  busy : after.busy = before.busy
  pendingStop : after.pendingStop = before.pendingStop
  listeners : after.listeners = before.listeners
  subscriptions : after.subscriptions = before.subscriptions

theorem published_of_commit {now : Timestamp} {step : StepResult} {published : Interpreter Listener}
    (isPublished : interpreter.commit definition now step = .published published) :
    Published definition now step interpreter published := by
  unfold Interpreter.commit at isPublished
  split at isPublished
  · cases isPublished
  · next isRunning =>
    have wasRunning : interpreter.lifecycle = .running := by simpa using isRunning
    split at isPublished
    · cases isPublished
    · next timers after =>
      cases isPublished
      refine ⟨wasRunning, rfl, rfl, rfl, rfl, ⟨timers, after, ?_⟩, rfl, rfl, rfl, rfl⟩
      cases done : Configuration.isInFinal definition.toStateTree step.plan.configuration
        StateTree.root with
      | true => exact .inl ⟨by simp, by simp, by simp⟩
      | false => exact .inr ⟨by simp [wasRunning], by simp, by simp⟩

namespace Tidy

variable (tidy : Tidy definition interpreter)

include tidy

/-- Timers may be marked and the clock may move. -/
theorem withTimers (timers : Timers)
    (same : ∀ timer ∈ timers.armed, ∃ before ∈ interpreter.timers.armed, before.key = timer.key) :
    Tidy definition { interpreter with timers } where
  idle := tidy.idle
  unstarted := tidy.unstarted
  armed timer isArmed := by
    obtain ⟨before, wasArmed, sameKey⟩ := same timer isArmed
    exact sameKey ▸ tidy.armed before wasArmed

theorem subscribe (listener : Listener) : Tidy definition (interpreter.subscribe listener).1 :=
  ⟨tidy.idle, tidy.unstarted, tidy.armed⟩

theorem unsubscribe (number : Nat) : Tidy definition (interpreter.unsubscribe number).1 :=
  ⟨tidy.idle, tidy.unstarted, tidy.armed⟩

theorem stop : Tidy definition interpreter.stop.1 := by
  obtain ⟨sameBusy, sameConfiguration, _, started, isUnchanged | ⟨noQueue, noTimers, put⟩⟩ :=
    interpreter.stop_spec
  · rw [isUnchanged]
    exact tidy
  · refine ⟨fun isIdle => ?_, fun unstarted => absurd unstarted started, fun timer isArmed => ?_⟩
    · have wasIdle := sameBusy ▸ isIdle
      exact ⟨noQueue, (put wasIdle).trans (tidy.idle wasIdle).2⟩
    · simp [noTimers] at isArmed

/-- Busy and started, an interpreter may have any signals wait. -/
theorem withQueue (queue : List Signal) (started : interpreter.lifecycle ≠ .notStarted) :
    Tidy definition { interpreter with queue, busy := true } where
  idle isIdle := by cases isIdle
  unstarted isUnstarted := absurd isUnstarted started
  armed := tidy.armed

theorem begin : Tidy definition { interpreter with lifecycle := .running, busy := true } where
  idle isIdle := by cases isIdle
  unstarted isUnstarted := by cases isUnstarted
  armed := tidy.armed

theorem release (isEmpty : interpreter.queue = [])
    (unstarted : interpreter.lifecycle = .notStarted →
      interpreter.configuration = definition.initialConfiguration) :
    Tidy definition interpreter.release.1 where
  idle _ := ⟨isEmpty, rfl⟩
  unstarted isUnstarted := ⟨rfl, unstarted isUnstarted⟩
  armed := tidy.armed

theorem abandonStart (initial : interpreter.configuration = definition.initialConfiguration) :
    Tidy definition interpreter.abandonStart.1 where
  idle _ := ⟨rfl, rfl⟩
  unstarted _ := ⟨rfl, initial⟩
  armed := tidy.armed

/-- A published step leaves a started interpreter with timers of active states. -/
theorem commit {now : Timestamp} {step : StepResult} {published : Interpreter Listener}
    (isBusy : interpreter.busy = true)
    (continues : step.plan.Continues interpreter.configuration)
    (isPublished : interpreter.commit definition now step = .published published) :
    Tidy definition published := by
  have all := published_of_commit isPublished
  obtain ⟨timers, leads, outcome⟩ := all.outcome
  refine ⟨fun isIdle => ?_, fun unstarted => ?_, fun timer isArmed => ?_⟩
  · cases isBusy.symm.trans (all.busy.symm.trans isIdle)
  · rcases outcome with ⟨isDone, _⟩ | ⟨isRunning, _⟩
    · cases isDone.symm.trans unstarted
    · cases isRunning.symm.trans unstarted
  · rw [all.configuration]
    rcases outcome with ⟨_, cleared, _⟩ | ⟨_, rfl, _⟩
    · rw [cleared] at isArmed
      cases isArmed
    · have fromStep : timer ∈ (interpreter.timersAfter definition step).1.armed := by
        rw [leads]
        exact isArmed
      rcases armed_timersAfter fromStep with ⟨before, notExited⟩ | entered
      · exact continues.kept (tidy.armed timer before) notExited
      · exact continues.entered entered

end Tidy

/-- What a published step makes of the machine itself. -/
theorem configuration_of_published {now : Timestamp} {step : StepResult}
    {published : Interpreter Listener}
    (isPublished : interpreter.commit definition now step = .published published) :
    interpreter.lifecycle = .running ∧ published.configuration = step.plan.configuration ∧
      published.context = step.context ∧ published.busy = interpreter.busy := by
  have all := published_of_commit isPublished
  exact ⟨all.wasRunning, all.configuration, all.context, all.busy⟩

/-- Only a machine that has been halted discards a step. -/
theorem halted_of_discarded {now : Timestamp} {step : StepResult}
    (isDiscarded : interpreter.commit definition now step = .discarded) :
    interpreter.lifecycle ≠ .running := by
  intro isRunning
  simp only [Interpreter.commit, isRunning, ne_eq, not_true, if_false] at isDiscarded
  split at isDiscarded <;> cases isDiscarded

/-- A step that leaves the range of the clock has changed nothing but timers. -/
theorem eq_of_overflow {now : Timestamp} {step : StepResult} {halted : Interpreter Listener}
    (overflows : interpreter.commit definition now step = .overflow halted) :
    ∃ timers, halted = { interpreter with timers } := by
  unfold Interpreter.commit at overflows
  split at overflows
  · cases overflows
  · split at overflows
    · cases overflows
      exact ⟨_, rfl⟩
    · cases overflows

theorem configuration_of_overflow {now : Timestamp} {step : StepResult}
    {halted : Interpreter Listener}
    (overflows : interpreter.commit definition now step = .overflow halted) :
    halted.configuration = interpreter.configuration := by
  obtain ⟨timers, rfl⟩ := eq_of_overflow overflows
  rfl

end Interpreter

end Statechart
