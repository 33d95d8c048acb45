import Statechart.Proofs.Advances

/-!
# Firings

A timer fires when its signal is taken from the queue while it is still armed. Where no code
makes requests no other timer fires in the pass over the queue that a timer has begun. If that
pass succeeds, the step of the timer has taken effect at the reading of the clock at which the
pass began, and all that has been armed in it falls due later.
-/

namespace Statechart

variable {σ Listener : Type}

/-! ## The order in which timers fall due -/

namespace Timer

variable {a b : Timer}

/-- The place of a timer in the order in which timers fall due: by deadline, and at one deadline
by the key. -/
def rank (timer : Timer) : ℕ ×ₗ ℕ ×ₗ ℕ :=
  toLex (timer.deadline.nanos, toLex (timer.key.state, timer.key.index))

theorem rank_lt_iff : a.rank < b.rank ↔
    a.deadline.nanos < b.deadline.nanos ∨ (a.deadline.nanos = b.deadline.nanos ∧
      (a.key.state < b.key.state ∨ (a.key.state = b.key.state ∧ a.key.index < b.key.index))) := by
  simp [rank, Prod.Lex.toLex_lt_toLex]

theorem dueBefore_iff : a.dueBefore b = true ↔ a.rank < b.rank := by
  have sameDeadline : a.deadline = b.deadline ↔ a.deadline.nanos = b.deadline.nanos :=
    ⟨congrArg _, Duration.ext_nanos⟩
  simp [rank_lt_iff, dueBefore, TimerKey.before, Duration.lt_def, sameDeadline]

theorem rank_lt_of_deadline_lt (sooner : a.deadline < b.deadline) : a.rank < b.rank :=
  rank_lt_iff.2 (.inl sooner)

theorem deadline_le_of_rank_lt (before : a.rank < b.rank) : a.deadline ≤ b.deadline := by
  rw [rank_lt_iff] at before
  rw [Duration.le_def]
  omega

theorem key_eq_of_rank_eq (same : a.rank = b.rank) : a.key = b.key := by
  obtain ⟨_, sameKey⟩ := Prod.mk.inj (toLex.injective same)
  obtain ⟨sameState, sameIndex⟩ := Prod.mk.inj (toLex.injective sameKey)
  rw [TimerKey.mk.injEq]
  exact ⟨sameState, sameIndex⟩

end Timer

namespace Timers

variable {timers popped : Timers} {due timer : Timer} {limit : Duration}

theorem rank_first?_le {list : List Timer} (isFirst : first? list = some due) :
    ∀ other ∈ list, due.rank ≤ other.rank := by
  induction list generalizing due with
  | nil => cases isFirst
  | cons head rest ih =>
      rw [List.forall_mem_cons]
      cases later : first? rest with
      | none =>
          obtain rfl : head = due := by simpa [first?, later] using isFirst
          have isEmpty : rest = [] := by
            by_contra nonempty
            exact first?_ne_none nonempty later
          exact ⟨le_rfl, by simp [isEmpty]⟩
      | some other =>
          cases sooner : other.dueBefore head with
          | true =>
              obtain rfl : other = due := by simpa [first?, later, sooner] using isFirst
              exact ⟨(Timer.dueBefore_iff.1 sooner).le, ih later⟩
          | false =>
              obtain rfl : head = due := by simpa [first?, later, sooner] using isFirst
              have headFirst : head.rank ≤ other.rank := by
                rw [← not_lt, ← Timer.dueBefore_iff, sooner]
                exact Bool.false_ne_true
              exact ⟨le_rfl, fun timer member => headFirst.trans (ih later timer member)⟩

/-- What is handed out comes before every other timer that waits. -/
theorem rank_lt_of_pop? (pop : timers.pop? limit = some (due, popped))
    (isArmed : timer ∈ timers.armed) (waits : timer.fired = false)
    (different : timer.key ≠ due.key) : due.rank < timer.rank := by
  have isFirst : first? (upTo limit timers.armed) = some due := by
    simp only [pop?, Option.bind_eq_bind, Option.bind_eq_some_iff] at pop
    obtain ⟨first, isFirst, same⟩ := pop
    obtain ⟨rfl, _⟩ := Prod.mk.inj (Option.some.inj same)
    exact isFirst
  by_cases soon : timer.deadline ≤ limit
  · have notLater := rank_first?_le isFirst timer (mem_upTo.2 ⟨isArmed, waits, soon⟩)
    exact lt_of_le_of_ne notLater fun same => different (Timer.key_eq_of_rank_eq same).symm
  · apply Timer.rank_lt_of_deadline_lt
    have inTime := (pop?_spec pop).2.2.1
    rw [Duration.le_def] at soon inTime
    rw [Duration.lt_def]
    omega

end Timers

/-- No delay of a machine that has been built is shorter than a millisecond. -/
theorem MachineSpec.millisecond_le_delay {machine : MachineSpec} {definition : Definition}
    {key : TimerKey} {delayed : DelayedTransition} (built : machine.build = .ok definition)
    (found : definition.delayed? key = some delayed) : 1_000_000 ≤ delayed.delay.nanos := by
  obtain ⟨noProblems, rfl⟩ := build_eq_ok_iff.1 built
  have member := List.mem_of_getElem? found
  rcases Nat.lt_or_ge key.state machine.resolved.size with inTree | outside
  · obtain ⟨spec, behaves, _⟩ := exists_declaration noProblems inTree
    rw [behaves] at member
    obtain ⟨declaration, _, isDelayed⟩ := List.mem_filterMap.1 member
    unfold StateTree.delayedOf? at isDelayed
    split at isDelayed
    · cases isDelayed
    · next notZero =>
      obtain ⟨target, _, rfl⟩ := Option.map_eq_some_iff.1 isDelayed
      have positive : declaration.millis.toNat ≠ 0 := fun isZero =>
        notZero (UInt64.toNat_inj.1 isZero)
      simp only [DelayedSpec.delay, Duration.ofMillis]
      omega
  · rw [behaviour_resolved_of_size_le outside] at member
    cases member

/-- No delay of a machine that has been built is zero. -/
theorem MachineSpec.delay_pos {machine : MachineSpec} {definition : Definition} {key : TimerKey}
    {delayed : DelayedTransition} (built : machine.build = .ok definition)
    (found : definition.delayed? key = some delayed) : 0 < delayed.delay.nanos :=
  Nat.lt_of_lt_of_le (by decide) (millisecond_le_delay built found)

/-! ## Timers that fire -/

/-- A timer whose signal is taken from the queue, and the reading of the clock. -/
structure Firing where
  timer : Timer
  clock : Duration

/-- The signal of the timer, told by the key and the generation, and the reading of the clock. -/
def Firing.trigger (firing : Firing) : (TimerKey × Nat) × Duration :=
  ((firing.timer.key, firing.timer.generation), firing.clock)

/-- The steps that have taken effect and that timers have triggered: the signals of the timers,
and the readings of the clock. -/
def Chronicle.triggered (chronicle : Chronicle Listener) : List ((TimerKey × Nat) × Duration) :=
  (commitments chronicle).filterMap fun commitment =>
    commitment.step.fired.map fun signal => (signal, commitment.clock)

@[simp]
theorem Chronicle.triggered_nil : triggered ([] : Chronicle Listener) = [] := rfl

@[simp]
theorem Chronicle.triggered_append {chronicle later : Chronicle Listener} :
    triggered (chronicle ++ later) = triggered chronicle ++ triggered later := by
  simp [triggered]

/-- The timer that fires in the next small step: its signal is taken, and it is still armed. -/
def Execution.firing? (execution : Execution σ Listener) : Option Firing :=
  match execution.work, execution.interpreter.queue with
  | .draining _ :: _, .timer key generation :: _ =>
    (execution.interpreter.timers.armed.find? fun timer =>
      timer.key = key && timer.generation == generation).map fun timer =>
        ⟨timer, execution.interpreter.now⟩
  | _, _ => none

/-- The timers that fire in small steps, each at a reading of its own. -/
def Program.firingsAt (program : Program σ Listener) :
    List Timestamp → Execution σ Listener → List Firing
  | [], _ => []
  | now :: later, execution =>
    match execution.step? program now with
    | none => []
    | some next => execution.firing?.toList ++ program.firingsAt later next

namespace Execution

variable {program : Program σ Listener} {readings later : List Timestamp} {now : Timestamp}
variable {start execution : Execution σ Listener}

theorem firingsAt_of_no_work (noWork : start.work = []) :
    program.firingsAt readings start = [] := by
  cases readings <;> simp [Program.firingsAt, step?, noWork]

theorem firingsAt_cons (steps : start.step? program now = some execution) :
    program.firingsAt (now :: later) start =
      start.firing?.toList ++ program.firingsAt later execution := by
  rw [Program.firingsAt, steps]

theorem firingsAt_append :
    program.firingsAt (readings ++ later) start =
      program.firingsAt readings start ++
        program.firingsAt later (start.runAt program readings) := by
  induction readings generalizing start with
  | nil => rfl
  | cons now readings ih =>
      simp only [List.cons_append, runAt, Program.firingsAt]
      cases steps : start.step? program now with
      | none => exact (firingsAt_of_no_work (step?_eq_none.1 steps)).symm
      | some next => simp [ih]

/-- Where only events wait no timer fires. -/
theorem firing?_eq_none (events : ∀ signal ∈ execution.interpreter.queue, signal.fired = none) :
    execution.firing? = none := by
  unfold firing?
  split
  · next key generation queue _ isQueue =>
    have isEvent := events (.timer key generation) (by simp [isQueue])
    cases isEvent
  · rfl

end Execution

/-- The timer of a delayed transition has been set at a reading of the clock, and waits. -/
def Timer.IsSet (definition : Definition) (clock : Duration) (timer : Timer) : Prop :=
  timer.fired = false ∧ ∃ delayed, definition.delayed? timer.key = some delayed ∧
    clock.add? delayed.delay = some timer.deadline

/-- A timer falls due no sooner than the shortest delay after it has been set. -/
theorem Timer.IsSet.add_le {definition : Definition} {clock : Duration} {timer : Timer}
    {shortest : Nat} (isSet : timer.IsSet definition clock)
    (delays : ∀ key delayed, definition.delayed? key = some delayed →
      shortest ≤ delayed.delay.nanos) : clock.nanos + shortest ≤ timer.deadline.nanos := by
  obtain ⟨_, delayed, found, deadline⟩ := isSet
  have notShorter := delays _ _ found
  have sum := Duration.add?_eq_some.1 deadline
  omega

/-! ## Passes in which no other timer fires -/

namespace Interpreter

variable {definition : Definition} {i j : Interpreter Listener} {timer : Timer}

/-- A machine in a pass that no timer is to interrupt: only events wait, and only a machine that
runs has timers, or takes a step that a timer has triggered. -/
structure Eventful (i : Interpreter Listener) (fired : Option (TimerKey × Nat)) : Prop where
  events : ∀ signal ∈ i.queue, signal.fired = none
  sorted : i.timers.Sorted
  halted : i.lifecycle ≠ .running → fired = none ∧ i.timers.armed = []

/-- What a machine may have armed once a step that a timer may have triggered has succeeded: what
was armed before, but for the timer of the step, and what has been armed since. -/
def Leaves (definition : Definition) (i : Interpreter Listener) (fired : Option (TimerKey × Nat))
    (timer : Timer) : Prop :=
  (timer ∈ i.timers.armed ∧ ∀ signal ∈ fired, signal.1 ≠ timer.key) ∨
    timer.IsSet definition i.now

/-- A step arms timers at the reading of the clock. -/
theorem Published.leaves {now : Timestamp} {step : StepResult}
    (published : Published definition now step i j) (sorted : i.timers.Sorted)
    (isArmed : timer ∈ j.timers.armed) : Leaves definition i step.fired timer := by
  obtain ⟨timers, leads, ⟨_, cleared, _⟩ | ⟨_, rfl, _⟩⟩ := published.outcome
  · rw [cleared] at isArmed
    cases isArmed
  · rcases (retimed_of_timersAfter sorted leads).origin timer isArmed with
      ⟨before, _, unspent, _⟩ | ⟨delayed, _, found, deadline, waits, _⟩
    · refine .inl ⟨before, fun signal isFired sameKey => unspent ⟨signal.2, ?_⟩⟩
      rw [Option.mem_def.1 isFired, ← sameKey]
    · exact .inr ⟨waits, delayed, found, deadline⟩

end Interpreter

namespace Program

open Chronicle

variable {program : Program σ Listener} {now : Timestamp} {s t : Standing σ Listener}
variable {strand : Strand σ Listener} {fired next : Option (TimerKey × Nat)}
variable {failure noted : Option InterpreterError} {i j : Interpreter Listener}
variable {chronicle : Chronicle Listener} {readings : List Timestamp}
variable {result : Except InterpreterError Delivery}

section Treads

variable (treads : program.Treads now i fired failure chronicle next noted j)
variable (eventful : i.Eventful fired)

include treads eventful

theorem Treads.stays_eventful : j.Eventful next := by
  cases treads with
  | rests => exact eventful
  | tells => exact eventful
  | skips failure isQueue unhandled =>
      refine ⟨fun signal member => eventful.events signal ?_, eventful.sorted, eventful.halted⟩
      rw [isQueue]
      exact .tail _ member
  | takes failure isQueue running =>
      have isEvent := eventful.events _ (isQueue ▸ List.mem_cons_self)
      rw [isEvent]
      refine ⟨fun signal member => eventful.events signal ?_, eventful.sorted, fun halted => ?_⟩
      · rw [isQueue]
        exact .tail _ member
      · exact ⟨rfl, (eventful.halted halted).2⟩
  | commits failure isPublished =>
      have published := Interpreter.published_of_commit isPublished
      obtain ⟨timers, leads, ⟨isDone, cleared, sameQueue⟩ | ⟨isRunning, rfl, longer⟩⟩ :=
        published.outcome
      · refine ⟨sameQueue ▸ eventful.events, ?_, fun _ => ⟨rfl, by rw [cleared]; rfl⟩⟩
        rw [cleared]
        exact .nil
      · refine ⟨fun signal member => ?_, ?_, fun halted => absurd isRunning halted⟩
        · rw [longer, List.mem_append, List.mem_map] at member
          rcases member with before | ⟨event, _, rfl⟩
          · exact eventful.events signal before
          · rfl
        · exact (Interpreter.retimed_of_timersAfter eventful.sorted leads).sorted
  | discards fired failure halted =>
      exact ⟨eventful.events, eventful.sorted, fun _ => ⟨rfl, (eventful.halted halted).2⟩⟩
  | fails fired failure error =>
      refine ⟨eventful.events, ?_, fun halted => ?_⟩
      · cases fired with
        | none => exact eventful.sorted
        | some signal => exact Timers.sorted_mark eventful.sorted
      · obtain ⟨rfl, noTimers⟩ := eventful.halted halted
        exact ⟨rfl, noTimers⟩

/-- Only events enter the queue. -/
theorem Treads.entered : (Chronicle.entered chronicle).filterMap Signal.fired = [] := by
  cases treads with
  | commits failure isPublished =>
      rw [Interpreter.ended_of_published isPublished]
      split <;> simp [Happening.entered?, Signal.fired]
  | _ => simp [Happening.entered?]

/-- A small step that does not fail leaves the step in progress and the timers as they are, or
makes the step take effect. -/
theorem Treads.succeeds (succeeds : noted = none) :
    failure = none ∧
      ((next = fired ∧ triggered chronicle = [] ∧ j.timers = i.timers) ∨
        (next = none ∧ triggered chronicle = fired.toList.map (·, i.now) ∧
          ∀ timer ∈ j.timers.armed, i.Leaves program.definition fired timer)) := by
  cases treads with
  | rests => exact ⟨succeeds, .inl ⟨rfl, rfl, rfl⟩⟩
  | tells => exact ⟨succeeds, .inl ⟨rfl, rfl, rfl⟩⟩
  | skips => exact ⟨succeeds, .inl ⟨rfl, rfl, rfl⟩⟩
  | takes failure isQueue running =>
      exact ⟨succeeds, .inl ⟨eventful.events _ (isQueue ▸ List.mem_cons_self), rfl, rfl⟩⟩
  | @commits _ step _ isPublished =>
      refine ⟨succeeds, .inr ⟨rfl, ?_, fun timer isArmed => ?_⟩⟩
      · rw [triggered, Interpreter.commitments_ended isPublished]
        cases isFired : step.fired <;> simp [Interpreter.commitment, isFired]
      · exact (Interpreter.published_of_commit isPublished).leaves eventful.sorted isArmed
  | discards fired failure halted =>
      obtain ⟨rfl, noTimers⟩ := eventful.halted halted
      exact ⟨succeeds, .inl ⟨rfl, rfl, rfl⟩⟩
  | fails fired failure error => cases failure <;> cases succeeds

end Treads

/-- What comes of a pass in which only events wait. -/
structure Passed (definition : Definition) (i : Interpreter Listener)
    (fired : Option (TimerKey × Nat)) (failure : Option InterpreterError)
    (chronicle : Chronicle Listener) (result : Except InterpreterError Delivery)
    (j : Interpreter Listener) : Prop where
  entered : (Chronicle.entered chronicle).filterMap Signal.fired = []
  eventful : j.Eventful none
  succeeds : ∀ delivery, result = .ok delivery → failure = none ∧
    triggered chronicle = fired.toList.map (·, i.now) ∧
    ∀ timer ∈ j.timers.armed, i.Leaves definition fired timer

/-- A small step comes before the rest of the pass. -/
theorem Treads.passed {k : Interpreter Listener} {later : Chronicle Listener}
    (treads : program.Treads now i fired failure chronicle next noted j)
    (eventful : i.Eventful fired)
    (passed : Passed program.definition j next noted later result k) :
    Passed program.definition i fired failure (chronicle ++ later) result k where
  entered := by
    rw [entered_append, List.filterMap_append, treads.entered eventful, passed.entered]
    rfl
  eventful := passed.eventful
  succeeds delivery isOk := by
    obtain ⟨noneNoted, rest, leaves⟩ := passed.succeeds delivery isOk
    have sameNow : j.now = i.now := treads.now_eq
    unfold Interpreter.Leaves at leaves
    rw [sameNow] at rest leaves
    obtain ⟨noFailure, ⟨rfl, nothing, sameTimers⟩ | ⟨rfl, first, leavesFirst⟩⟩ :=
      treads.succeeds eventful noneNoted
    · rw [sameTimers] at leaves
      rw [triggered_append, nothing, rest]
      exact ⟨noFailure, rfl, leaves⟩
    · refine ⟨noFailure, by simp [first, rest], fun timer isArmed => ?_⟩
      rcases leaves timer isArmed with ⟨before, _⟩ | new
      · exact leavesFirst timer before
      · exact .inr new

/-- While only events wait no timer fires. -/
theorem Passes.passed (passes : program.Passes readings s strand chronicle result t)
    (passing : strand.Passing fired failure) (discreet : program.Discreet)
    (noStop : s.1.pendingStop = none) (eventful : s.1.Eventful fired) :
    Passed program.definition s.1 fired failure chronicle result t.1 ∧
      ∀ resume, program.firingsAt readings (s.does (strand resume)) = [] := by
  induction readings generalizing s strand fired failure chronicle with
  | nil =>
      have ends := (passes fun _ => .client (.done ())).1
      exact absurd (congrArg (·.work) ends) (passing.ne_client _ _)
  | cons now readings ih =>
      have proceeds : program.Proceeds now s strand fired failure :=
        proceeds_of_passing passing discreet noStop
      cases proceeds with
      | goesOn u treads passing onward =>
          obtain ⟨further, rfl, rest⟩ := passes.tail onward fun _ => .client (.done ())
          obtain ⟨passed, noFirings⟩ := ih rest passing (treads.pendingStop.trans noStop)
            (treads.stays_eventful eventful)
          refine ⟨treads.passed eventful passed, fun resume => ?_⟩
          rw [Execution.firingsAt_cons (onward resume).1, noFirings resume,
            Execution.firing?_eq_none eventful.events]
          rfl
      | returns isOver succeeds isEmpty onward =>
          obtain ⟨further, rfl, rest⟩ := passes.tail onward fun _ => .client (.done ())
          obtain ⟨rfl, rfl, rfl⟩ := eq_of_returned program
            fun next _ => (rest fun result => .client (next result)).1
          have nothing := (rest fun _ => .client (.done ())).2
          refine ⟨⟨?_, ⟨eventful.events, eventful.sorted, ?_⟩, fun delivery isOk => ?_⟩,
            fun resume => ?_⟩
          · rw [← nothing]
            rfl
          · exact fun halted => ⟨rfl, (eventful.halted halted).2⟩
          · subst isOver
            rw [← nothing]
            exact ⟨succeeds delivery isOk, rfl, fun timer isArmed => .inl ⟨isArmed, by simp⟩⟩
          · rw [Execution.firingsAt_cons (onward resume).1,
              Execution.firing?_eq_none eventful.events]
            rfl
      | overflows chronicle interpreter onward =>
          have ends := (passes fun _ => .client (.done ())).1
          rw [Execution.runAt_cons (onward _).1, Execution.runAt_of_no_work rfl] at ends
          cases congrArg (·.overflowed) ends

/-! ## The pass of a timer -/

/-- A machine between two requests: its timers wait, all for transitions of the machine, and only
a machine that runs has any. -/
structure Expectant (definition : Definition) (i : Interpreter Listener) : Prop where
  sorted : i.timers.Sorted
  known : ∀ timer ∈ i.timers.armed, (definition.delayed? timer.key).isSome = true
  waits : ∀ timer ∈ i.timers.armed, timer.fired = false
  halted : i.lifecycle ≠ .running → i.timers.armed = []

section Due

variable {limit : Duration} {timer : Timer} {timers : Timers}

/-- The machine of which a timer has fired, once the signal has been taken. -/
def awake (s : Standing σ Listener) (timers : Timers) : Standing σ Listener :=
  ({ s.1 with timers, queue := [], busy := true }, s.2)

variable (due : s.1.due? limit = some (timer, timers))
variable (expectant : Expectant program.definition s.1)

include due

theorem running_of_due? : s.1.lifecycle = .running := by
  unfold Interpreter.due? at due
  split at due
  · next running => simpa [Interpreter.isRunning] using running
  · cases due

/-- What a machine has armed once the pass of a timer has succeeded: what was armed before, but
for that timer, and what has been set in the pass. -/
theorem armed_of_leaves {other : Timer}
    (leaves : (awake s timers).1.Leaves program.definition (some (timer.key, timer.generation))
      other) :
    (other ∈ s.1.timers.armed ∧ other.key ≠ timer.key) ∨
      other.IsSet program.definition timers.now := by
  rcases leaves with ⟨isArmed, different⟩ | new
  · obtain ⟨_, _, _, rfl⟩ := Timers.pop?_spec (pop?_of_due? due)
    have different : other.key ≠ timer.key := (different _ rfl).symm
    obtain ⟨before, wasArmed, rfl⟩ := Timers.mem_mark.1 isArmed
    split at different
    · next same => exact absurd same.1 different
    · next notSame =>
      rw [if_neg notSame]
      exact .inl ⟨wasArmed, different⟩
  · exact .inr new

include expectant

/-- The timer that has fired is the only one that is marked. -/
theorem find?_popped : timers.armed.find? (fun other =>
    other.key = timer.key && other.generation == timer.generation) =
      some { timer with fired := true } := by
  obtain ⟨isArmed, waits, inTime, rfl⟩ := Timers.pop?_spec (pop?_of_due? due)
  have sorted : (s.1.timers.mark timer.key timer.generation true).Sorted :=
    Timers.sorted_mark expectant.sorted
  have marked : { timer with fired := true } ∈
      (s.1.timers.mark timer.key timer.generation true).armed :=
    Timers.mem_mark.2 ⟨timer, isArmed, by simp⟩
  cases found : (s.1.timers.mark timer.key timer.generation true).armed.find? (fun other =>
      other.key = timer.key && other.generation == timer.generation) with
  | none => simpa using List.find?_eq_none.1 found _ marked
  | some other =>
      have isIt := List.find?_some found
      simp only [Bool.and_eq_true, decide_eq_true_eq] at isIt
      rw [sorted.unique (List.mem_of_find?_eq_some found) marked isIt.1]

/-- The step of the timer begins. -/
theorem onward_awake (now : Timestamp) :
    ∃ event plan, program.Onward now (s.1.woken timer timers, s.2) beginning
      [.taken (.timer timer.key timer.generation)] fun resume =>
        (awake s timers).does [.stepping
          ⟨.signal (some (timer.key, timer.generation)) { resume }, event, plan, plan.invocations,
            s.1.context, []⟩] := by
  have running : (s.1.woken timer timers).isRunning = true := by
    simp [Interpreter.isRunning, Interpreter.woken, running_of_due? due]
  have current : timers.isCurrent timer.key timer.generation = true := by
    have found := find?_popped due expectant
    exact List.any_eq_true.2 ⟨_, List.mem_of_find?_eq_some found, by simp⟩
  obtain ⟨isArmed, _⟩ := Timers.pop?_spec (pop?_of_due? due)
  obtain ⟨delayed, isDelayed⟩ := Option.isSome_iff_exists.1 (expectant.known timer isArmed)
  have found : ∀ drain, Execution.stepOf? program { s.1.woken timer timers with queue := [] } drain
      (.timer timer.key timer.generation) = some (.begin
        (.signal (Signal.timer timer.key timer.generation).fired drain) delayed.transition.event
        (program.definition.plan s.1.configuration [delayed.transition]) s.1.context) := by
    intro drain
    simp [Execution.stepOf?, Interpreter.woken, current, isDelayed, Signal.fired]
  exact ⟨_, _, onward_taken (s := (s.1.woken timer timers, s.2)) rfl running found none none⟩

theorem eventful_awake : (awake s timers).1.Eventful (some (timer.key, timer.generation)) := by
  obtain ⟨isArmed, waits, inTime, rfl⟩ := Timers.pop?_spec (pop?_of_due? due)
  refine ⟨fun signal member => (List.not_mem_nil member).elim, ?_, fun halted => ?_⟩
  · exact Timers.sorted_mark expectant.sorted
  · exact absurd (running_of_due? due) halted

/-- In the pass that a timer has begun it fires, and no other timer does; if the pass succeeds,
its step has taken effect. -/
theorem Passes.fires (passes : program.Passes readings (s.1.woken timer timers, s.2) beginning
      chronicle result t)
    (discreet : program.Discreet) (idle : s.Idle) :
    (∀ resume, program.firingsAt readings
        (Standing.does (s.1.woken timer timers, s.2) (beginning resume)) =
      [⟨{ timer with fired := true }, timers.now⟩]) ∧
    (Chronicle.entered chronicle).filterMap Signal.fired = [] ∧
    ∀ delivery, result = .ok delivery →
      triggered chronicle = [((timer.key, timer.generation), timers.now)] ∧
      Expectant program.definition t.1 ∧
      ∀ other ∈ t.1.timers.armed, (other ∈ s.1.timers.armed ∧ other.key ≠ timer.key) ∨
        other.IsSet program.definition timers.now := by
  cases readings with
  | nil =>
      have ends := (passes fun _ => .client (.done ())).1
      exact absurd (congrArg (·.work) ends) (beginning_passing.ne_client _ _)
  | cons now readings =>
      obtain ⟨event, plan, onward⟩ := onward_awake due expectant now
      obtain ⟨further, rfl, rest⟩ := passes.tail onward fun _ => .client (.done ())
      have stepping : Strand.Passing _ _ (_ : Strand σ Listener) :=
        .stepping (some (timer.key, timer.generation)) none none event plan plan.invocations
          s.1.context []
      obtain ⟨passed, noFirings⟩ := Passes.passed rest stepping discreet idle.pendingStop
        (eventful_awake due expectant)
      refine ⟨fun resume => ?_, passed.entered, fun delivery isOk => ?_⟩
      · have fires : Execution.firing?
            (Standing.does (s.1.woken timer timers, s.2) (beginning resume)) =
              some ⟨{ timer with fired := true }, timers.now⟩ :=
          congrArg (Option.map fun timer => (⟨timer, timers.now⟩ : Firing))
            (find?_popped due expectant)
        rw [Execution.firingsAt_cons (onward resume).1, fires, noFirings]
        rfl
      · obtain ⟨_, isTriggered, leaves⟩ := passed.succeeds delivery isOk
        have left := fun other isArmed => armed_of_leaves due (leaves other isArmed)
        refine ⟨isTriggered, ⟨passed.eventful.sorted, fun other isArmed => ?_,
          fun other isArmed => ?_, fun halted => (passed.eventful.halted halted).2⟩, left⟩
        · rcases left other isArmed with ⟨wasArmed, _⟩ | ⟨_, delayed, found, _⟩
          · exact expectant.known other wasArmed
          · exact Option.isSome_of_mem found
        · rcases left other isArmed with ⟨wasArmed, _⟩ | ⟨waits, _⟩
          · exact expectant.waits other wasArmed
          · exact waits

end Due

end Program

end Statechart
