import Statechart.Proofs.ClockSlices
import Statechart.Proofs.Firings

/-!
# The order of firings

Moving the clock fires timers in the order in which they fall due, those included that are armed
on the way: a timer that is armed in the pass of another falls due after it. So each fires at its
deadline, or at once if the clock stood there or beyond, and in the end nothing is due any more.
-/

namespace Statechart

variable {σ Listener : Type}

theorem Duration.latest_latest {a b c : Duration} (le : b ≤ c) :
    (a.latest b).latest c = a.latest c := by
  apply ext_nanos
  rw [le_def] at le
  simp only [latest_nanos]
  omega

namespace Program

open Chronicle

variable {program : Program σ Listener} {s t u : Standing σ Listener} {limit : Duration}
variable {readings : List Timestamp} {count : Nat} {result : Except InterpreterError Nat}
variable {chronicle : Chronicle Listener} {firings : List Firing}

/-- How timers fire while the clock is moved up to a limit: each after those that fall due
before it, and at the reading of the clock that it was armed for. -/
structure Punctual (s : Standing σ Listener) (limit : Duration) (firings : List Firing)
    (chronicle : Chronicle Listener) : Prop where
  ordered : firings.Pairwise fun a b => a.timer.rank < b.timer.rank
  clock : ∀ firing ∈ firings, firing.clock = s.1.now.latest firing.timer.deadline
  inTime : ∀ firing ∈ firings, firing.timer.deadline ≤ limit
  /-- What comes before all that is armed, and is past, comes before all that fires. -/
  follows : ∀ timer : Timer, timer.deadline ≤ s.1.now →
    (∀ other ∈ s.1.timers.armed, timer.rank < other.rank) →
    ∀ firing ∈ firings, timer.rank < firing.timer.rank
  entered : (Chronicle.entered chronicle).filterMap Signal.fired =
    firings.map fun firing => firing.trigger.1

theorem punctual_nil : Punctual s limit [] [] where
  ordered := .nil
  clock _ member := (List.not_mem_nil member).elim
  inTime _ member := (List.not_mem_nil member).elim
  follows _ _ _ _ member := (List.not_mem_nil member).elim
  entered := rfl

section Due

variable {timer : Timer} {timers : Timers} {further : Chronicle Listener}

/-- One timer fires, and then the others. -/
theorem Punctual.cons (punctual : Punctual t limit firings further)
    (due : s.1.due? limit = some (timer, timers)) (expectant : Expectant program.definition s.1)
    (quiet : (Chronicle.entered chronicle).filterMap Signal.fired = [])
    (sameNow : t.1.now = timers.now)
    (armed : ∀ other ∈ t.1.timers.armed, (other ∈ s.1.timers.armed ∧ other.key ≠ timer.key) ∨
      timers.now < other.deadline) :
    Punctual s limit (⟨{ timer with fired := true }, timers.now⟩ :: firings)
      (.entered (.timer timer.key timer.generation) :: (chronicle ++ further)) := by
  obtain ⟨isArmed, waits, inTime, popped⟩ := Timers.pop?_spec (pop?_of_due? due)
  have clock : timers.now = s.1.now.latest timer.deadline := by rw [popped]; rfl
  have past : timer.deadline ≤ timers.now := by
    rw [clock, Duration.le_def, Duration.latest_nanos]
    omega
  have since : s.1.now ≤ timers.now := by
    rw [clock, Duration.le_def, Duration.latest_nanos]
    omega
  -- what is armed after the pass of the timer comes after it
  have later : ∀ other ∈ t.1.timers.armed, timer.rank < other.rank := by
    intro other member
    rcases armed other member with ⟨wasArmed, different⟩ | isLater
    · exact Timers.rank_lt_of_pop? (pop?_of_due? due) wasArmed (expectant.waits other wasArmed)
        different
    · exact Timer.rank_lt_of_deadline_lt (Nat.lt_of_le_of_lt past isLater)
  have follows : ∀ firing ∈ firings, timer.rank < firing.timer.rank :=
    punctual.follows timer (sameNow ▸ past) later
  refine ⟨List.pairwise_cons.2 ⟨follows, punctual.ordered⟩, ?_, ?_, ?_, ?_⟩
  · rw [List.forall_mem_cons]
    refine ⟨clock, fun firing member => ?_⟩
    have notSooner := Timer.deadline_le_of_rank_lt (follows firing member)
    rw [punctual.clock firing member, sameNow, clock, Duration.latest_latest notSooner]
  · rw [List.forall_mem_cons]
    exact ⟨inTime, punctual.inTime⟩
  · intro earlier isPast before
    have first : earlier.rank < timer.rank := before timer isArmed
    rw [List.forall_mem_cons]
    exact ⟨first, fun firing member => first.trans (follows firing member)⟩
  · simp [Happening.entered?, Signal.fired, Firing.trigger, quiet, punctual.entered]

end Due

theorem Expectant.settled (expectant : Expectant program.definition s.1)
    (nothing : s.1.due? limit = none) : ∀ timer ∈ s.1.timers.armed, limit < timer.deadline := by
  intro timer isArmed
  by_contra notLater
  have soon : timer.deadline ≤ limit := Nat.le_of_not_lt notLater
  have running : s.1.isRunning = true := by
    by_contra halted
    have noTimers := expectant.halted (by simpa [Interpreter.isRunning] using halted)
    simp [noTimers] at isArmed
  obtain ⟨due, popped, pop⟩ := Timers.exists_pop? isArmed (expectant.waits timer isArmed) soon
  simp [Interpreter.due?, running, pop] at nothing

/-- Moving the clock fires timers in order; if it is answered, their steps are the steps that
timers have triggered, and nothing is due up to the limit. -/
theorem Advances.punctual
    (advances : program.Advances limit readings s count result chronicle u)
    (discreet : program.Discreet) (idle : s.Idle) (expectant : Expectant program.definition s.1)
    (positive : ∀ key delayed, program.definition.delayed? key = some delayed →
      0 < delayed.delay.nanos) :
    ∃ firings,
      (∀ resume, program.firingsAt readings (s.does [.advancing limit count resume]) = firings) ∧
      Punctual s limit firings chronicle ∧
      ∀ total, result = .ok total → total = count + firings.length ∧
        triggered chronicle = firings.map Firing.trigger ∧
        ∀ timer ∈ u.1.timers.armed, limit < timer.deadline := by
  have still : ∀ (s : Standing σ Listener) (count : Nat) resume,
      (s.does [.advancing limit count resume]).firing? = none := fun _ _ _ => rfl
  induction advances with
  | settles now count nothing =>
      have onward : program.Onward now _ _ _ _ := onward_settled now count nothing
      refine ⟨[], fun resume => ?_, punctual_nil, fun total isOk => ?_⟩
      · rw [Execution.firingsAt_cons (onward resume).1, still]
        rfl
      · cases isOk
        exact ⟨rfl, rfl, expectant.settled nothing⟩
  | @fires now s t u timer timers earlier later count chronicle further delivery result due passes
      idleAfter sameNow onward ih =>
      have wakes : program.Onward now _ _ _ _ := onward_woken now count idle due
      obtain ⟨firesOne, quiet, succeeds⟩ := Passes.fires due expectant passes discreet idle
      obtain ⟨isTriggered, expectantAfter, armed⟩ := succeeds delivery rfl
      have later : ∀ other ∈ t.1.timers.armed,
          (other ∈ s.1.timers.armed ∧ other.key ≠ timer.key) ∨ timers.now < other.deadline :=
        fun other isArmed => (armed other isArmed).imp_right (·.add_le positive)
      obtain ⟨firings, fires, punctual, answered⟩ := ih idleAfter expectantAfter
      refine ⟨_ :: firings, fun resume => ?_, punctual.cons due expectant quiet sameNow later,
        fun total isOk => ?_⟩
      · have ends : (Standing.does (s.1.woken timer timers, s.2)
            (beginning (afterTimer limit count resume))).runAt program earlier =
              t.does [.advancing limit (count + 1) resume] := (passes _).1
        rw [Execution.firingsAt_cons (wakes resume).1, still, Execution.firingsAt_append,
          firesOne, ends, fires]
        rfl
      · obtain ⟨sum, rest, nothingDue⟩ := answered total isOk
        refine ⟨by rw [sum, List.length_cons]; omega, ?_, nothingDue⟩
        have first : triggered (.entered (.timer timer.key timer.generation) ::
            (chronicle ++ further)) = triggered (chronicle ++ further) := rfl
        rw [first, triggered_append, isTriggered, rest]
        rfl
  | @fails now s t timer timers earlier count chronicle error due passes idleAfter =>
      have wakes : program.Onward now _ _ _ _ := onward_woken now count idle due
      obtain ⟨firesOne, quiet, _⟩ := Passes.fires due expectant passes discreet idle
      obtain ⟨_, _, _, popped⟩ := Timers.pop?_spec (pop?_of_due? due)
      -- nothing fires after a failure, whatever is armed
      have alone : Punctual ({ s.1 with timers := { timers with armed := [] } }, s.2) limit [] [] :=
        punctual_nil
      have punctual := alone.cons due expectant quiet rfl
        fun other isArmed => (List.not_mem_nil isArmed).elim
      rw [List.append_nil] at punctual
      refine ⟨[_], fun resume => ?_, punctual, fun total isOk => by cases isOk⟩
      rw [Execution.firingsAt_cons (wakes resume).1, still, firesOne]
      rfl

theorem Booked.expectant {i : Interpreter Listener} (booked : program.Booked .outside i)
    (noQueue : i.queue = []) : Expectant program.definition i where
  sorted := booked.sorted
  known := booked.known
  waits timer isArmed := by
    have unsent := booked.booked timer isArmed
    by_contra isFired
    simp [outstanding, noQueue, Phase.underway, isFired] at unsent
  halted halted := booked.halted (.inl halted)

section

variable {machine : MachineSpec} {execution : Execution σ Listener} {span : Duration}
variable {answer : Except InterpreterError Nat}

/-- When the clock of an idle machine is moved and no code makes requests, timers fire in the
order in which they fall due, by deadline and then by key, those included that are armed on the
way; each fires at its deadline, or at once if the clock stands there or beyond, and none that
falls due after the span. If the move succeeds, its answer is their number, their steps have all
taken effect, in that order and at those readings of the clock, and no other timer has triggered
a step; the clock has been moved by the span, and what is armed still falls due later. -/
theorem timers_fire_in_order (built : machine.build = .ok program.definition)
    (discreet : program.Discreet) (reachable : program.Reachable execution)
    (inRange : execution.overflowed = false) (isIdle : execution.interpreter.busy = false)
    (running : execution.interpreter.isRunning = true)
    (reaches : execution.interpreter.now.add? span = some limit)
    (answers : program.Answers readings execution.standing (.advance span) answer chronicle t) :
    ∃ firings : List Firing,
      (∀ next, program.firingsAt readings
        (execution.standing.does [.client (.ask (.advance span) next)]) = firings) ∧
      (Chronicle.entered chronicle).filterMap Signal.fired =
        firings.map (fun firing => (firing.timer.key, firing.timer.generation)) ∧
      firings.Pairwise (fun a b => a.timer.rank < b.timer.rank) ∧
      (∀ firing ∈ firings,
        firing.clock = execution.interpreter.now.latest firing.timer.deadline ∧
        firing.timer.deadline ≤ firing.clock ∧ firing.timer.deadline ≤ limit) ∧
      ∀ fired, answer = .ok fired →
        fired = firings.length ∧
        triggered chronicle = firings.map Firing.trigger ∧
        t.1.now = limit ∧
        ∀ timer ∈ t.1.timers.armed, t.1.now < timer.deadline := by
  obtain ⟨_, booked, idle⟩ := reachable.driven inRange isIdle running (.done ())
  obtain ⟨now, later, rfl, advances⟩ :=
    (answers_advance_iff discreet idle running reaches).1 answers
  obtain ⟨firings, fires, punctual, answered⟩ := advances.punctual discreet idle
    (booked.expectant idle.queue) fun _ _ found => MachineSpec.delay_pos built found
  refine ⟨firings, fun next => ?_, punctual.entered, punctual.ordered, fun firing member => ?_,
    fun fired isOk => ?_⟩
  · have steps : (execution.standing.does [.client (.ask (.advance span) next)]).step?
        program now = some (execution.standing.does
          [.advancing limit 0 fun answer => .client (next answer)]) := by
      have running : execution.standing.1.isRunning = true := running
      have reaches : execution.standing.1.now.add? span = some limit := reaches
      simp [Execution.step?, Execution.proceed, Execution.meet, Standing.does, running, reaches]
    rw [Execution.firingsAt_cons steps, fires]
    rfl
  · have clock := punctual.clock firing member
    refine ⟨clock, ?_, punctual.inTime firing member⟩
    rw [clock, Duration.le_def, Duration.latest_nanos]
    omega
  · obtain ⟨sum, isTriggered, nothingDue⟩ := answered fired isOk
    have within : execution.interpreter.now ≤ limit := Duration.le_add? reaches
    subst isOk
    have atLimit := advances.now_eq within
    exact ⟨by omega, isTriggered, atLimit, atLimit ▸ nothingDue⟩

end

/-- The light goes out after 30 milliseconds, and after 50 the door falls shut. -/
theorem light_goes_out_before_door_falls_shut :
    ∃ light door : Firing,
      light.timer.rank < door.timer.rank ∧
      light.clock = light.timer.deadline ∧ door.clock = door.timer.deadline ∧
      triggered (quietHall.chronicleAt (List.replicate 16 default) waiting) =
        [light.trigger, door.trigger] ∧
      waited.1.now = .ofMillis 80 := by
  obtain ⟨inRange, isIdle, running, reaches⟩ := entered_idle
  obtain ⟨firings, _, _, ordered, clocks, answered⟩ := timers_fire_in_order MachineSpec.hall_built
    discreet_quietHall reachable_entered inRange isIdle running reaches waiting_answers
  obtain ⟨count, isTriggered, atLimit, _⟩ := answered 2 rfl
  have atZero : entered.interpreter.now = .zero := by cbv
  obtain ⟨light, door, rfl⟩ := List.length_eq_two.1 count.symm
  have atDeadline : ∀ firing ∈ [light, door], firing.clock = firing.timer.deadline := by
    intro firing member
    rw [(clocks firing member).1, atZero]
    exact Duration.ext_nanos (Duration.latest_nanos.trans (Nat.zero_max _))
  exact ⟨light, door, by simpa using ordered, atDeadline light (by simp),
    atDeadline door (by simp), isTriggered, atLimit⟩

end Program

end Statechart
