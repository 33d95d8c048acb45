import Statechart.Proofs.Armed
import Statechart.Proofs.Phases

/-!
# The signals of timers

A timer that has been handed out is marked, and no reading of the clock finds it again.
Its signal is then the only one of its kind, in the queue or in the step that it has
triggered, until the timer is disarmed or given back.
-/

namespace Statechart

variable {σ Listener : Type}

theorem Signal.timer_ne {key other : TimerKey} {generation number : Nat}
    (different : ¬ (other = key ∧ number = generation)) :
    Signal.timer key generation ≠ .timer other number := by
  intro same
  injection same with sameKey sameGeneration
  exact different ⟨sameKey.symm, sameGeneration.symm⟩

/-- The signal of the timer that has triggered a step. -/
def Origin.signals {W : Type} (origin : Origin W) : List Signal :=
  (origin.fired.map fun fired => .timer fired.1 fired.2).toList

/-- The signals of timers that are processed in some work. -/
def Work.underway : Work σ Listener → List Signal
  | .stepping step | .acting step _ _ => step.origin.signals
  | .advancing _ _ resume => (resume (.ok 0)).underway
  | .client _ | .listening _ | .notifying _ _ | .draining _ => []

/-- The signals of timers that are being processed. -/
def Execution.underway (execution : Execution σ Listener) : List Signal :=
  execution.work.flatMap Work.underway

namespace Phase

def underway : Phase σ Listener → List Signal
  | .step running => running.origin.signals
  | .outside | .pass | .news _ _ | .farewell _ _ => []

theorem underway_bidding {phase : Phase σ Listener}
    (notice : Option (List (Nat × Listener) × Snapshot)) :
    (phase.bidding notice).underway ⊆ phase.underway := by
  cases notice with
  | none => exact List.Subset.refl _
  | some pair => exact List.nil_subset _

theorem underway_outside (notice : Option (List (Nat × Listener) × Snapshot)) :
    ((outside : Phase σ Listener).bidding notice).underway = [] :=
  List.subset_nil.1 (underway_bidding notice)

open Work

theorem underway_of_leads {kind : Work σ Listener → Prop} {work : Work σ Listener}
    {signals : List Signal} (leads : Leads kind work)
    (same : ∀ work, kind work → work.underway = signals) : work.underway = signals := by
  induction leads with
  | here isKind => exact same _ isKind
  | advancing limit fired after ih => exact ih (.ok 0)

/-- The work of a phase processes what the phase does. -/
theorem Arranged.underway {phase : Phase σ Listener} {work : List (Work σ Listener)}
    (arranged : phase.Arranged work) : work.flatMap Work.underway = phase.underway := by
  have client : ∀ {work : Work σ Listener}, Outside work → work.underway = [] :=
    fun outside => underway_of_leads outside (by rintro _ ⟨code, rfl⟩; rfl)
  have listening : ∀ {work : Work σ Listener}, Leads IsListening work → work.underway = [] :=
    fun leads => underway_of_leads leads (by rintro _ ⟨code, rfl⟩; rfl)
  cases arranged with
  | ended => rfl
  | pass after => rfl
  | news after => rfl
  | farewell outside => simp [Work.underway, Phase.underway, client outside]
  | hosted hosts leads =>
      cases hosts with
      | client => simp [Phase.underway, client leads]
      | @step step after =>
          have same : ∀ work, IsOf step work → work.underway = step.origin.signals := by
            rintro _ (rfl | ⟨call, code, rfl⟩) <;> rfl
          simp [Phase.underway, underway_of_leads leads same]
      | news after => simp [Work.underway, Phase.underway, listening leads]
      | farewell outside => simp [Work.underway, Phase.underway, listening leads, client outside]

end Phase

namespace Program

/-- The signals of timers that wait or are being processed. -/
def outstanding (phase : Phase σ Listener) (i : Interpreter Listener) : List Signal :=
  i.queue ++ phase.underway

/-- Every armed timer is that of a delayed transition, and it is marked exactly if its one
signal is outstanding; a machine that is not running has none. -/
structure Booked (program : Program σ Listener) (phase : Phase σ Listener)
    (i : Interpreter Listener) : Prop where
  sorted : i.timers.Sorted
  known : ∀ timer ∈ i.timers.armed, (program.definition.delayed? timer.key).isSome = true
  issued : ∀ timer ∈ i.timers.armed, timer.generation ≤ i.timers.generations
  sent : ∀ key generation, .timer key generation ∈ outstanding phase i →
    generation ≤ i.timers.generations
  booked : ∀ timer ∈ i.timers.armed,
    (outstanding phase i).count (.timer timer.key timer.generation) =
      if timer.fired then 1 else 0
  halted : i.lifecycle ≠ .running ∨ phase.isStarting = true → i.timers.armed = []

variable {program : Program σ Listener} {now : Timestamp} {phase next : Phase σ Listener}
variable {i after : Interpreter Listener} {happenings : Chronicle Listener}

/-- Nothing needs to be booked where nothing is armed. -/
theorem booked_of_disarmed (isEmpty : i.timers.armed = [])
    (sent : ∀ key generation, .timer key generation ∈ outstanding phase i →
      generation ≤ i.timers.generations) : program.Booked phase i where
  sorted := by simp [Timers.Sorted, isEmpty]
  known := by simp [isEmpty]
  issued := by simp [isEmpty]
  sent := sent
  booked := by simp [isEmpty]
  halted _ := isEmpty

/-- Other work may go on as long as the signals of the armed timers are outstanding as
before. -/
theorem Booked.change (booked : program.Booked phase i)
    (sameTimers : after.timers.armed = i.timers.armed)
    (sameGenerations : after.timers.generations = i.timers.generations)
    (sent : ∀ key generation, .timer key generation ∈ outstanding next after →
      .timer key generation ∈ outstanding phase i)
    (same : ∀ timer ∈ i.timers.armed,
      (outstanding next after).count (.timer timer.key timer.generation) =
        (outstanding phase i).count (.timer timer.key timer.generation))
    (halted : after.lifecycle ≠ .running ∨ next.isStarting = true → i.timers.armed = []) :
    program.Booked next after where
  sorted := by
    rw [Timers.Sorted, sameTimers]
    exact booked.sorted
  known := sameTimers ▸ booked.known
  issued := by
    rw [sameTimers, sameGenerations]
    exact booked.issued
  sent key generation isOutstanding := by
    rw [sameGenerations]
    exact booked.sent key generation (sent key generation isOutstanding)
  booked timer isArmed := by
    rw [sameTimers] at isArmed
    rw [same timer isArmed]
    exact booked.booked timer isArmed
  halted stopped := sameTimers.trans (halted stopped)

/-- A timer may be marked, or lose its mark, along with its signal. -/
theorem Booked.mark {key : TimerKey} {generation : Nat} {fired : Bool}
    (booked : program.Booked phase i)
    (marks : after.timers.armed = (i.timers.mark key generation fired).armed)
    (sameGenerations : after.timers.generations = i.timers.generations)
    (sent : ∀ other number, .timer other number ∈ outstanding next after →
      number ≤ i.timers.generations)
    (marked : ∀ timer ∈ i.timers.armed, timer.key = key → timer.generation = generation →
      (outstanding next after).count (.timer key generation) = if fired then 1 else 0)
    (others : ∀ other number, ¬ (other = key ∧ number = generation) →
      (outstanding next after).count (.timer other number) =
        (outstanding phase i).count (.timer other number))
    (halted : after.lifecycle ≠ .running ∨ next.isStarting = true → i.timers.armed = []) :
    program.Booked next after where
  sorted := by
    rw [Timers.Sorted, marks]
    exact Timers.sorted_mark booked.sorted
  known timer isArmed := by
    rw [marks] at isArmed
    obtain ⟨before, wasArmed, sameKey⟩ := Timers.exists_of_mem_mark isArmed
    exact sameKey ▸ booked.known before wasArmed
  issued timer isArmed := by
    rw [marks] at isArmed
    obtain ⟨before, wasArmed, rfl⟩ := Timers.mem_mark.1 isArmed
    rw [sameGenerations]
    have issued := booked.issued before wasArmed
    split <;> exact issued
  sent other number isOutstanding := by
    rw [sameGenerations]
    exact sent other number isOutstanding
  booked timer isArmed := by
    rw [marks] at isArmed
    obtain ⟨before, wasArmed, rfl⟩ := Timers.mem_mark.1 isArmed
    by_cases isMarked : before.key = key ∧ before.generation = generation
    · simp only [isMarked, and_self, if_true]
      exact marked before wasArmed isMarked.1 isMarked.2
    · simp only [isMarked, if_false]
      rw [others _ _ isMarked]
      exact booked.booked before wasArmed
  halted stopped := by simp [marks, Timers.mark, halted stopped]

/-- A timer that is handed out is marked, and its signal is outstanding from then on. -/
theorem Booked.pop {limit : Duration} {due : Timer} (booked : program.Booked phase i)
    (pop : i.timers.pop? limit = some (due, after.timers))
    (queued : after.queue = i.queue ++ [.timer due.key due.generation])
    (sameLifecycle : after.lifecycle = i.lifecycle) (sameUnderway : next.underway = phase.underway)
    (notStarting : next.isStarting = true → phase.isStarting = true) :
    program.Booked next after := by
  obtain ⟨isArmed, waits, _, marks⟩ := Timers.pop?_spec pop
  have split : ∀ signal, (outstanding next after).count signal =
      (outstanding phase i).count signal +
        if Signal.timer due.key due.generation = signal then 1 else 0 := by
    intro signal
    simp only [outstanding, queued, sameUnderway, List.count_append, List.count_singleton,
      beq_iff_eq]
    omega
  have noneYet := booked.booked due isArmed
  simp only [waits, Bool.false_eq_true, if_false] at noneYet
  refine booked.mark (by rw [marks]) (by rw [marks]; rfl) ?_ ?_ ?_ ?_
  · intro other number isOutstanding
    by_cases isDue : other = due.key ∧ number = due.generation
    · exact isDue.2 ▸ booked.issued due isArmed
    · apply booked.sent other number
      rw [← List.count_pos_iff, split] at isOutstanding
      simpa [Signal.timer_ne isDue] using isOutstanding
  · intro _ _ _ _
    rw [split, noneYet]
    simp
  · intro other number isOther
    rw [split]
    simp [Signal.timer_ne isOther]
  · intro stopped
    rw [sameLifecycle] at stopped
    exact booked.halted (stopped.imp_right notStarting)

/-- A timer whose step has failed is given back: its mark and its signal go together. -/
theorem Booked.giveBack {step : RunningStep (Work σ Listener)}
    (booked : program.Booked (.step step) i)
    (given : after.timers = i.timers.afterFailure step.origin.fired)
    (queued : after.queue = i.queue) (sameLifecycle : after.lifecycle = i.lifecycle) :
    program.Booked .pass after := by
  have halted : after.lifecycle ≠ .running ∨ (.pass : Phase σ Listener).isStarting = true →
      i.timers.armed = [] := fun stopped =>
    booked.halted (.inl (by simpa [Phase.isStarting, sameLifecycle] using stopped))
  cases fired : step.origin.fired with
  | none =>
      rw [fired] at given
      have unchanged : after.timers = i.timers := given
      exact booked.change (by rw [unchanged]) (by rw [unchanged])
        (by simp [outstanding, Phase.underway, Origin.signals, fired, queued])
        (by simp [outstanding, Phase.underway, Origin.signals, fired, queued]) halted
  | some pair =>
      obtain ⟨key, generation⟩ := pair
      rw [fired] at given
      have split : ∀ signal, (outstanding (.step step) i).count signal =
          (outstanding (.pass : Phase σ Listener) after).count signal +
            if Signal.timer key generation = signal then 1 else 0 := by
        intro signal
        simp [outstanding, Phase.underway, Origin.signals, fired, queued, List.count_singleton]
      refine booked.mark (by rw [given]; rfl) (by rw [given]; rfl) ?_ ?_ ?_ halted
      · intro other number isOutstanding
        apply booked.sent other number
        have counted := split (.timer other number)
        rw [← List.count_pos_iff] at isOutstanding ⊢
        omega
      · rintro timer isArmed rfl rfl
        have once := booked.booked timer isArmed
        rw [split] at once
        have wasFired : timer.fired = true := by
          by_contra notFired
          simp [notFired] at once
        simpa [wasFired] using once
      · intro other number isOther
        rw [split]
        simp [Signal.timer_ne isOther]

/-- A step that a timer has not triggered does not process its signal. -/
theorem count_signals {step : RunningStep (Work σ Listener)} {key : TimerKey}
    (unspent : ¬ step.result.Spends key) (generation : Nat) :
    step.origin.signals.count (.timer key generation) = 0 := by
  rw [List.count_eq_zero]
  intro member
  apply unspent
  refine ⟨generation, ?_⟩
  have isFired : step.origin.fired = some (key, generation) := by
    simpa [Origin.signals, Prod.ext_iff] using member
  exact isFired

/-- A published step takes the timer that triggered it along with its signal, and the timers
that it arms wait. -/
theorem Booked.publish {step : RunningStep (Work σ Listener)} {subscribers : List (Nat × Listener)}
    {snapshot : Snapshot} (booked : program.Booked (.step step) i)
    (published : Interpreter.Published program.definition now step.result i after) :
    program.Booked (.news subscribers snapshot) after := by
  obtain ⟨timers, leads, outcome⟩ := published.outcome
  have retimed := Interpreter.retimed_of_timersAfter booked.sorted leads
  have atRest : outstanding (.news subscribers snapshot : Phase σ Listener) after = after.queue :=
    List.append_nil _
  have queued : ∀ key generation, after.queue.count (.timer key generation) =
      i.queue.count (.timer key generation) := by
    intro key generation
    rcases outcome with ⟨_, _, queue⟩ | ⟨_, _, queue⟩
    · rw [queue]
    · have noTimers : (step.result.raised.map Signal.event).count (.timer key generation) = 0 := by
        simp [List.count_eq_zero]
      simp [queue, noTimers]
  have sent : ∀ key generation, .timer key generation ∈ after.queue →
      generation ≤ i.timers.generations := by
    intro key generation member
    apply booked.sent key generation
    rw [← List.count_pos_iff, queued] at member
    exact List.mem_append_left _ (List.count_pos_iff.1 member)
  rcases outcome with ⟨isDone, cleared, _⟩ | ⟨isRunning, rfl, _⟩
  · apply booked_of_disarmed
    · rw [cleared]
      rfl
    · intro key generation member
      rw [atRest] at member
      rw [cleared]
      exact Nat.le_trans (sent key generation member) retimed.grows
  · refine ⟨retimed.sorted, ?_, ?_, ?_, ?_, ?_⟩
    · intro timer isArmed
      rcases retimed.origin timer isArmed with ⟨before, _⟩ | ⟨delayed, _, found, _⟩
      · exact booked.known timer before
      · simp [found]
    · intro timer isArmed
      rcases retimed.origin timer isArmed with ⟨before, _⟩ | ⟨_, _, _, _, _, _, issued⟩
      · exact Nat.le_trans (booked.issued timer before) retimed.grows
      · exact issued
    · intro key generation member
      rw [atRest] at member
      exact Nat.le_trans (sent key generation member) retimed.grows
    · intro timer isArmed
      rw [atRest]
      rcases retimed.origin timer isArmed with ⟨before, _, unspent, _⟩ | ⟨_, _, _, _, waits, new, _⟩
      · rw [queued, ← booked.booked timer before, outstanding, List.count_append, Phase.underway,
          count_signals unspent, Nat.add_zero]
      · -- the generation is new, so no signal carries it
        simp only [waits, Bool.false_eq_true, if_false, List.count_eq_zero]
        intro member
        have old := sent timer.key timer.generation member
        omega
    · intro stopped
      simp [isRunning, Phase.isStarting] at stopped

/-- A signal that enters the queue is that of an event, or of a timer that is marked with it. -/
theorem Booked.enter {signal : Signal} {timers : Timers} (booked : program.Booked phase i)
    (source : i.Signalled signal timers) (isTimers : after.timers = timers)
    (queued : after.queue = i.queue ++ [signal]) (sameLifecycle : after.lifecycle = i.lifecycle)
    (sameUnderway : next.underway = phase.underway)
    (notStarting : next.isStarting = true → phase.isStarting = true) :
    program.Booked next after := by
  cases source with
  | event name =>
      have halted : after.lifecycle ≠ .running ∨ next.isStarting = true → i.timers.armed = [] := by
        intro stopped
        rw [sameLifecycle] at stopped
        exact booked.halted (stopped.imp_right notStarting)
      exact booked.change (by rw [isTimers]) (by rw [isTimers])
        (by simp [outstanding, queued, sameUnderway])
        (by simp [outstanding, queued, sameUnderway]) halted
  | timer due => exact booked.pop (isTimers ▸ due) queued sameLifecycle sameUnderway notStarting

/-- A signal for which no step is found is not that of an armed timer. -/
theorem Booked.skip {signal : Signal} {queue : List Signal} (booked : program.Booked .pass i)
    (isQueue : i.queue = signal :: queue)
    (unhandled : i.isRunning = true →
      ∃ drain : Drain (Work σ Listener),
        Execution.stepOf? program { i with queue } drain signal = none) :
    program.Booked (.pass : Phase σ Listener) { i with queue } := by
  have others : ∀ timer ∈ i.timers.armed, signal ≠ .timer timer.key timer.generation := by
    rintro timer isArmed rfl
    have isRunning : i.isRunning = true := by
      by_contra notRunning
      have nothing := booked.halted (.inl (by simpa [Interpreter.isRunning] using notRunning))
      simp [nothing] at isArmed
    obtain ⟨drain, notFound⟩ := unhandled isRunning
    have isCurrent : i.timers.isCurrent timer.key timer.generation = true := by
      simp only [Timers.isCurrent, List.any_eq_true]
      exact ⟨timer, isArmed, by simp⟩
    have isKnown := booked.known timer isArmed
    simp [Execution.stepOf?, isCurrent, Option.isSome_iff_ne_none] at notFound isKnown
    exact isKnown notFound
  refine booked.change rfl rfl ?_ ?_ booked.halted
  · intro key generation member
    simp only [outstanding, isQueue, List.cons_append]
    exact .tail _ member
  · intro timer isArmed
    simp [outstanding, isQueue, others timer isArmed]

/-- Every move keeps the books. -/
theorem Move.booked (move : program.Move now phase i happenings next after)
    (booked : program.Booked phase i) : program.Booked next after := by
  cases move with
  | quiet => exact booked
  | act _ sameOrigin =>
      exact booked.change rfl rfl (by simp [outstanding, Phase.underway, sameOrigin])
        (by simp [outstanding, Phase.underway, sameOrigin])
        (by simpa [Phase.isStarting, sameOrigin] using booked.halted)
  | begin unstarted =>
      apply booked_of_disarmed
      · exact booked.halted (.inl (by simp [unstarted]))
      · exact booked.sent
  | enter _ _ source => exact booked.enter source rfl rfl rfl rfl id
  | wake _ _ source => exact booked.enter source rfl rfl rfl rfl id
  | stop =>
      cases lifecycle : i.lifecycle with
      | stopped => simpa [Interpreter.stop, lifecycle, Phase.bidding] using booked
      | notStarted | running | done =>
          apply booked_of_disarmed
          · cases busy : i.busy <;> simp [Interpreter.stop, lifecycle, busy, Timers.clear]
          · have dropped : i.stop.1.queue = [] ∧
                i.stop.1.timers.generations = i.timers.generations := by
              cases busy : i.busy <;> simp [Interpreter.stop, lifecycle, busy, Timers.clear]
            intro key generation member
            rw [outstanding, dropped.1, List.nil_append] at member
            rw [dropped.2]
            exact booked.sent key generation
              (List.mem_append_right _ (Phase.underway_bidding _ member))
  | skip isQueue unhandled => exact booked.skip isQueue unhandled
  | @take _ signal _ drain step isQueue _ found =>
      have origin : step.origin = .signal signal.fired drain := by
        rw [begun_of_stepOf? found]
        rfl
      have halted : i.lifecycle ≠ .running ∨ (Phase.step step).isStarting = true →
          i.timers.armed = [] := by
        intro stopped
        exact booked.halted (.inl (stopped.resolve_right (by simp [Phase.isStarting, origin,
          Origin.isRecorded])))
      refine booked.change rfl rfl ?_ ?_ halted
      · intro key generation member
        cases signal <;> simpa [outstanding, origin, Origin.signals, Origin.fired,
          Signal.fired, Phase.underway, isQueue, or_comm] using member
      · intro timer _
        cases signal <;> simp [outstanding, origin, Origin.signals, Origin.fired,
          Signal.fired, Phase.underway, isQueue, List.count_cons]
  | release =>
      have same : outstanding (Phase.outside.bidding i.release.2 : Phase σ Listener) i.release.1 =
          outstanding (.pass : Phase σ Listener) i := by
        rw [outstanding, Phase.underway_outside]
        rfl
      refine booked.change rfl rfl (by simp [same]) (by simp [same]) fun stopped => ?_
      apply booked.halted
      exact .inl (stopped.resolve_right fun isStarting =>
        Bool.false_ne_true (Phase.starting_of_bidding isStarting))
  | discard isDiscarded =>
      apply booked_of_disarmed
      · exact booked.halted (.inl (Interpreter.halted_of_discarded isDiscarded))
      · intro key generation member
        have waits : .timer key generation ∈ i.queue := by
          simpa [outstanding, Phase.underway] using member
        exact booked.sent key generation (List.mem_append_left _ waits)
  | publish isPublished => exact booked.publish (Interpreter.published_of_commit isPublished)
  | abandon isStart =>
      apply booked_of_disarmed
      · exact booked.halted (.inr (by simp [Phase.isStarting, isStart, Origin.isRecorded]))
      · intro key generation member
        cases Phase.underway_bidding _ member
  | fail isSignal => exact booked.giveBack (by rw [isSignal]; rfl) rfl rfl
  | _ => exact booked.change rfl rfl (fun _ _ member => member) (fun _ _ => rfl) booked.halted

theorem booked_assemble {lifecycle : Lifecycle} {configuration : Configuration}
    {context : Context} {history : History} :
    program.Booked .outside
      (.assemble program.definition lifecycle configuration context history) := by
  by_cases isRunning : lifecycle = .running
  · subst isRunning
    have arming : Timers.Arming (program.definition.timersOf configuration.toList) {}
        (Interpreter.assemble program.definition .running configuration context history :
          Interpreter Listener).timers :=
      Interpreter.arming_assemble configuration context history
    refine ⟨arming.sorted, ?_, ?_, fun _ _ member => (by cases member), ?_, ?_⟩
    · intro timer isArmed
      rcases arming.origin timer isArmed with ⟨before, _⟩ | ⟨_, named, _⟩
      · cases before
      · obtain ⟨_, delayed, found, _⟩ := Definition.mem_timersOf.1 named
        simp [found]
    · intro timer isArmed
      rcases arming.origin timer isArmed with ⟨before, _⟩ | ⟨_, _, _, _, _, issued⟩
      · cases before
      · exact issued
    · intro timer isArmed
      rcases arming.origin timer isArmed with ⟨before, _⟩ | ⟨_, _, _, waits, _⟩
      · cases before
      · rw [waits]
        rfl
    · intro stopped
      exact absurd rfl (stopped.resolve_right Bool.false_ne_true)
  · apply booked_of_disarmed
    · simp [Interpreter.assemble, isRunning]
    · exact fun _ _ member => by cases member

theorem Begins.booked (begins : program.Begins i) : program.Booked .outside i := by
  obtain ⟨_, _, _, _, rfl⟩ := begins.exists_assemble
  exact booked_assemble

variable {execution : Execution σ Listener}

theorem Reachable.booked (reachable : program.Reachable execution)
    (inRange : execution.overflowed = false) :
    ∃ phase : Phase σ Listener, program.Situated phase execution ∧
      program.Booked phase execution.interpreter := by
  obtain ⟨interpreter, memory, code, begins, steps⟩ := reachable
  obtain ⟨chronicle, run⟩ := exists_runsTo steps
  exact run.induct (fun phase i _ => program.Booked phase i) inRange (situated_ofClient begins)
    begins.booked fun _ move => move.booked

/-- No timer is lost. Whatever runs, a timer that is marked has exactly one signal of its own
in the queue or in the step in progress; a timer that is not has none, and as long as it is
due it is the next to be handed out, or it is still there after that. -/
theorem timer_is_not_lost {timer : Timer} (reachable : program.Reachable execution)
    (inRange : execution.overflowed = false)
    (isArmed : timer ∈ execution.interpreter.timers.armed) :
    execution.interpreter.isRunning = true ∧
      (execution.interpreter.queue ++ execution.underway).count
          (.timer timer.key timer.generation) = (if timer.fired then 1 else 0) ∧
      (timer.fired = false → ∀ limit, timer.deadline ≤ limit →
        ∃ due popped, execution.interpreter.timers.pop? limit = some (due, popped) ∧
          (due = timer ∨ timer ∈ popped.armed)) := by
  obtain ⟨phase, situated, booked⟩ := reachable.booked inRange
  refine ⟨?_, ?_, fun waits limit isDue => ?_⟩
  · by_contra notRunning
    have nothing := booked.halted (.inl (by simpa [Interpreter.isRunning] using notRunning))
    simp [nothing] at isArmed
  · rw [Execution.underway, situated.arranged.underway]
    exact booked.booked timer isArmed
  · obtain ⟨due, popped, pop⟩ := Timers.exists_pop? isArmed waits isDue
    refine ⟨due, popped, pop, ?_⟩
    obtain ⟨wasArmed, _, _, rfl⟩ := Timers.pop?_spec pop
    by_cases same : timer.key = due.key
    · exact .inl (booked.sorted.unique wasArmed isArmed same.symm)
    · exact .inr (Timers.mem_mark.2 ⟨timer, isArmed, by simp [same]⟩)

/-- While the bell rings the light's timer has fired: its signal waits in the queue. -/
theorem hall_light_is_not_lost :
    (visiting.run hall default 25).interpreter.timers.armed =
        [⟨⟨6, 0⟩, .ofMillis 30, 1, true⟩] ∧
      ((visiting.run hall default 25).interpreter.queue ++
        (visiting.run hall default 25).underway).count (.timer ⟨6, 0⟩ 1) = 1 := by
  have run : hall.RunsTo visiting _ (visiting.run hall default 25) := runsTo_run default 25 visiting
  have facts : ((visiting.run hall default 25).overflowed,
      (visiting.run hall default 25).interpreter.timers.armed) =
      (false, [⟨⟨6, 0⟩, .ofMillis 30, 1, true⟩]) := by cbv
  obtain ⟨inRange, armed⟩ := Prod.mk.inj facts
  have isArmed : (⟨⟨6, 0⟩, .ofMillis 30, 1, true⟩ : Timer) ∈
      (visiting.run hall default 25).interpreter.timers.armed := by
    rw [armed]
    exact .head _
  have notLost := timer_is_not_lost ⟨_, _, _, begins_hall, run.steps⟩ inRange isArmed
  exact ⟨armed, notLost.2.1⟩

end Program

end Statechart
