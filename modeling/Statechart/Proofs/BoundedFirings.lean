import Statechart.Proofs.FiringOrder
import Statechart.Proofs.Generations

/-!
# How many timers fire

A delay is at least a millisecond, and it runs from the reading of the clock at which it is armed.
So a delayed transition that has fired does not fire again within a millisecond, however often its
own steps arm it, and no more than once a millisecond while the clock is moved. Where every pass
over the queue comes to its end, so does moving the clock.
-/

namespace Statechart

variable {σ Listener : Type}

/-- How many whole milliseconds the clock has to go up to a limit. -/
def Duration.millisUpTo (now limit : Duration) : Nat := (limit.nanos - now.nanos) / 1_000_000

namespace Duration

variable {now later limit : Duration}

theorem millisUpTo_le (le : now ≤ later) : later.millisUpTo limit ≤ now.millisUpTo limit := by
  rw [le_def] at le
  exact Nat.div_le_div_right (by omega)

theorem millisUpTo_lt (apart : now.nanos + 1_000_000 ≤ later.nanos) (inTime : later ≤ limit) :
    later.millisUpTo limit < now.millisUpTo limit := by
  rw [le_def] at inTime
  unfold millisUpTo
  omega

theorem le_latest : now ≤ now.latest later := by
  rw [le_def, latest_nanos]
  omega

theorem latest_mono {other : Duration} (le : now ≤ later) :
    now.latest other ≤ later.latest other := by
  rw [le_def] at *
  simp only [latest_nanos]
  omega

end Duration

namespace Interpreter

/-- A delayed transition fires at most so many times while the clock is moved up to a limit: if it
is armed from now on, and if it is armed already. -/
structure Allows (i : Interpreter Listener) (limit : Duration) (key : TimerKey) (times : Nat) :
    Prop where
  later : i.now.millisUpTo limit ≤ times
  armed : ∀ timer ∈ i.timers.armed, timer.key = key → timer.deadline ≤ limit →
    (i.now.latest timer.deadline).millisUpTo limit < times

theorem allows_once_a_millisecond (i : Interpreter Listener) (limit : Duration) (key : TimerKey) :
    i.Allows limit key (1 + i.now.millisUpTo limit) where
  later := Nat.le_add_left _ _
  armed timer _ _ _ := by
    have notMore : (i.now.latest timer.deadline).millisUpTo limit ≤ i.now.millisUpTo limit :=
      Duration.millisUpTo_le Duration.le_latest
    omega

variable {definition : Definition} {i j : Interpreter Listener} {limit : Duration}
variable {timer : Timer} {key : TimerKey} {times : Nat}

/-- Once a timer has fired, its transition may fire again only as often as the time that is left
allows, and any other no more often than before. -/
theorem Allows.fired (allows : i.Allows limit key times)
    (now : j.now = i.now.latest timer.deadline)
    (delays : ∀ key delayed, definition.delayed? key = some delayed →
      1_000_000 ≤ delayed.delay.nanos)
    (armed : ∀ other ∈ j.timers.armed, (other ∈ i.timers.armed ∧ other.key ≠ timer.key) ∨
      other.IsSet definition j.now) :
    j.Allows limit key (if key = timer.key then j.now.millisUpTo limit else times) := by
  have since : i.now ≤ j.now := now ▸ Duration.le_latest
  have setLater : ∀ other : Timer, other.IsSet definition j.now → other.deadline ≤ limit →
      (j.now.latest other.deadline).millisUpTo limit < j.now.millisUpTo limit := by
    intro other isSet inTime
    have apart := isSet.add_le delays
    refine Nat.lt_of_le_of_lt (Duration.millisUpTo_le ?_) (Duration.millisUpTo_lt apart inTime)
    rw [Duration.le_def, Duration.latest_nanos]
    omega
  split
  · next isIts =>
    refine ⟨le_rfl, fun other isArmed sameKey inTime => ?_⟩
    rcases armed other isArmed with ⟨_, different⟩ | isSet
    · exact absurd (sameKey.trans isIts) different
    · exact setLater other isSet inTime
  · have still : j.now.millisUpTo limit ≤ times :=
      (Duration.millisUpTo_le since).trans allows.later
    refine ⟨still, fun other isArmed sameKey inTime => ?_⟩
    rcases armed other isArmed with ⟨wasArmed, _⟩ | isSet
    · exact Nat.lt_of_le_of_lt (Duration.millisUpTo_le (Duration.latest_mono since))
        (allows.armed other wasArmed sameKey inTime)
    · exact (setLater other isSet inTime).trans_le still

end Interpreter

/-- Every transition of a machine that has been built is a transition of one of its states. -/
theorem MachineSpec.mem_keys_of_isSome {machine : MachineSpec} {definition : Definition}
    {key : TimerKey} (built : machine.build = .ok definition)
    (isDelayed : (definition.delayed? key).isSome = true) :
    key ∈ (definition.timersOf (List.range definition.size)).map (·.1) := by
  obtain ⟨_, rfl⟩ := build_eq_ok_iff.1 built
  refine Definition.mem_keys_timersOf.2 ⟨List.mem_range.2 ?_, isDelayed⟩
  by_contra outside
  have nothing : machine.resolved.behaviour key.state = default :=
    behaviour_resolved_of_size_le (Nat.le_of_not_lt outside)
  rw [Definition.delayed?, nothing] at isDelayed
  cases isDelayed

namespace Program

open Chronicle

variable {program : Program σ Listener} {s t : Standing σ Listener}
variable {readings : List Timestamp} {limit span : Duration} {chronicle : Chronicle Listener}

/-- A pass over the queue leaves nothing in progress, and the clock where it was. -/
theorem Passes.idle {result : Except InterpreterError Delivery} {strand : Strand σ Listener}
    {fired : Option (TimerKey × Nat)} {failure : Option InterpreterError}
    (passes : program.Passes readings s strand chronicle result t)
    (passing : strand.Passing fired failure) (discreet : program.Discreet)
    (noStop : s.1.pendingStop = none) : t.Idle ∧ t.1.now = s.1.now := by
  have ends := (passes fun _ => .client (.done ())).1
  obtain ⟨_, later, _, _, u, rfl, _, idle, still, rest⟩ :=
    exists_passes passing discreet noStop ends
  obtain rfl := runAt_client_done rfl rest
  obtain ⟨rfl, _⟩ := Standing.does_inj rest
  exact ⟨idle, still⟩

theorem sum_lt_of_fewer {keys : List TimerKey} {times : TimerKey → Nat} {key : TimerKey}
    {fewer : Nat} (isKey : key ∈ keys) (less : fewer < times key) :
    (keys.map fun other => if other = key then fewer else times other).sum <
      (keys.map times).sum := by
  refine List.sum_lt_sum _ _ (fun other _ => ?_) ⟨key, isKey, by simpa using less⟩
  split
  · next same => exact same ▸ less.le
  · exact le_rfl

section Moving

variable {start : Execution σ Listener} {before : Chronicle Listener} {fired : Nat}
variable (discreet : program.Discreet) (finitely : program.RaisesFinitely start)
variable (inRange : ∀ chronicle last, program.RunsTo start chronicle last →
  last.overflowed = false)
variable (run : program.RunsTo start before
  (s.does [.advancing limit fired fun _ => .client (.done ())])) (idle : s.Idle)

include discreet finitely inRange run idle

/-- A timer that is due fires, and its pass comes to its end; if the pass succeeds, the clock
moves on. -/
theorem exists_pass_of_due {timer : Timer} {timers : Timers}
    (due : s.1.due? limit = some (timer, timers)) (clock : ℕ → Timestamp) :
    ∃ count chronicle result t,
      program.Passes (firstReadings (fun n => clock (n + 1)) count) (s.1.woken timer timers, s.2)
        beginning chronicle result t ∧
      t.Idle ∧ t.1.now = timers.now ∧
      ∀ delivery, result = .ok delivery → ∃ after, program.RunsTo start after
        (t.does [.advancing limit (fired + 1) fun _ => .client (.done ())]) := by
  have woken : program.RunsTo start _ (Standing.does (s.1.woken timer timers, s.2)
      (beginning (afterTimer limit fired fun _ => .client (.done ())))) :=
    run.tail (onward_woken (clock 0) fired idle due _).1
  obtain ⟨count, chronicle, result, t, passes⟩ :=
    finitely.subsides discreet inRange woken idle.pendingStop fun n => clock (n + 1)
  obtain ⟨idleAfter, sameNow⟩ := Passes.idle passes beginning_passing discreet idle.pendingStop
  refine ⟨count, chronicle, result, t, passes, idleAfter, sameNow, fun delivery isOk => ?_⟩
  subst isOk
  exact ⟨_, woken.trans (passes.runsTo _)⟩

/-- If every pass over the queue comes to its end, the clock is moved up to a limit at whatever
readings, and no more timers fire than all delayed transitions are allowed together. -/
theorem exists_advances_allowed {keys : List TimerKey} {times : TimerKey → Nat}
    (delays : ∀ key delayed, program.definition.delayed? key = some delayed →
      1_000_000 ≤ delayed.delay.nanos)
    (known : ∀ key, (program.definition.delayed? key).isSome = true → key ∈ keys)
    (allows : ∀ key, s.1.Allows limit key (times key))
    (expectant : Expectant program.definition s.1) (clock : ℕ → Timestamp) :
    ∃ count result chronicle t,
      program.Advances limit (firstReadings clock count) s fired result chronicle t ∧
      ((Chronicle.entered chronicle).filterMap Signal.fired).length ≤ (keys.map times).sum := by
  generalize bound : (keys.map times).sum = total
  -- a timer that fires leaves its transition fewer times to fire, and no other more
  induction total using Nat.strongRecOn generalizing s fired before times clock with
  | ind total ih =>
      cases due : s.1.due? limit with
      | none => exact ⟨1, _, _, _, .settles (clock 0) fired due, by simp⟩
      | some popped =>
          obtain ⟨timer, timers⟩ := popped
          obtain ⟨isArmed, _, inTime, popped⟩ := Timers.pop?_spec (pop?_of_due? due)
          have now : timers.now = s.1.now.latest timer.deadline := by rw [popped]; rfl
          have less : timers.now.millisUpTo limit < times timer.key :=
            now ▸ (allows timer.key).armed timer isArmed rfl inTime
          have fewer := sum_lt_of_fewer (known _ (expectant.known timer isArmed)) less
          rw [bound] at fewer
          obtain ⟨count, chronicle, result, t, passes, idleAfter, nowAfter, onward⟩ :=
            exists_pass_of_due discreet finitely inRange run idle due clock
          obtain ⟨_, quiet, succeeds⟩ := Passes.fires due expectant passes discreet idle
          cases result with
          | error error =>
              have advances : program.Advances limit _ s fired _ _ _ :=
                .fails (clock 0) due passes idleAfter
              rw [← firstReadings_succ] at advances
              refine ⟨count + 1, _, _, _, advances, ?_⟩
              simp [Happening.entered?, Signal.fired, quiet]
              omega
          | ok delivery =>
              obtain ⟨_, expectantAfter, armed⟩ := succeeds delivery rfl
              obtain ⟨_, onward⟩ := onward delivery rfl
              rw [← nowAfter] at armed now
              obtain ⟨more, result, further, u, rest, notMore⟩ := ih _ fewer onward idleAfter
                (fun key => (allows key).fired now delays armed) expectantAfter
                (fun n => clock (count + n + 1)) (by rw [nowAfter])
              have advances := Advances.fires (clock 0) due passes idleAfter nowAfter rest
              rw [← firstReadings_add (fun n => clock (n + 1)), ← firstReadings_succ] at advances
              refine ⟨count + more + 1, result, _, u, advances, ?_⟩
              simp [Happening.entered?, Signal.fired, quiet]
              omega

end Moving

/-- The clock of a machine is to be moved by a span. -/
def moving (s : Standing σ Listener) (span : Duration) : Execution σ Listener :=
  s.does [.client (.ask (.advance span) fun _ => .done ())]

section

variable {machine : MachineSpec} {execution : Execution σ Listener}

/-- Moving the clock of a machine ends, at whatever readings, if no code makes requests, if the
events that are raised do not raise others for ever and if the clock stays in its range. As many
timers fire as there are delayed transitions, times one more than the whole milliseconds of the
span, or fewer; if no step fails, the answer is their number. -/
theorem moving_the_clock_ends (built : machine.build = .ok program.definition)
    (discreet : program.Discreet) (reachable : program.Reachable execution)
    (inRange : execution.overflowed = false) (isIdle : execution.interpreter.busy = false)
    (running : execution.interpreter.isRunning = true)
    (staysInRange : ∀ chronicle last, program.RunsTo (moving execution.standing span) chronicle
      last → last.overflowed = false)
    (finitely : program.RaisesFinitely (moving execution.standing span))
    (clock : ℕ → Timestamp) :
    ∃ count answer chronicle t,
      program.Answers (firstReadings clock count) execution.standing (.advance span) answer
        chronicle t ∧
      ((Chronicle.entered chronicle).filterMap Signal.fired).length ≤
        (program.definition.timersOf (List.range program.definition.size)).length *
          (1 + span.nanos / 1_000_000) ∧
      ∀ fired, answer = .ok fired →
        fired = ((Chronicle.entered chronicle).filterMap Signal.fired).length := by
  obtain ⟨_, booked, idle⟩ := reachable.driven inRange isIdle running (.done ())
  have runs : execution.standing.1.isRunning = true := running
  obtain ⟨limit, reaches⟩ : ∃ limit, execution.standing.1.now.add? span = some limit := by
    cases sum : execution.standing.1.now.add? span with
    | some limit => exact ⟨limit, rfl⟩
    | none =>
        have steps : (moving execution.standing span).step? program (clock 0) =
            some ((moving execution.standing span).overflow execution.interpreter) := by
          simp [moving, Execution.step?, Execution.proceed, Execution.meet, Standing.does, runs,
            sum]
          rfl
        cases staysInRange _ _ (.tail .refl steps)
  have begun : program.RunsTo (moving execution.standing span) [] (execution.standing.does
      [.advancing limit 0 fun _ => .client (.done ())]) :=
    (onward_asked (clock 0) runs reaches).brings.runsTo fun _ => .done ()
  have delays : ∀ key delayed, program.definition.delayed? key = some delayed →
      1_000_000 ≤ delayed.delay.nanos := fun _ _ found =>
    MachineSpec.millisecond_le_delay built found
  have expectant : Expectant program.definition execution.standing.1 :=
    booked.expectant idle.queue
  obtain ⟨count, answer, chronicle, t, advances, notMore⟩ := exists_advances_allowed discreet
    finitely staysInRange begun idle delays (fun key => MachineSpec.mem_keys_of_isSome built)
    (execution.interpreter.allows_once_a_millisecond limit) expectant fun n => clock (n + 1)
  refine ⟨count + 1, answer, chronicle, t, ?_, ?_, fun fired isOk => ?_⟩
  · rw [firstReadings_succ]
    exact (answers_advance_iff discreet idle runs reaches).2 ⟨_, _, rfl, advances⟩
  · have sum := Duration.add?_eq_some.1 reaches
    have span : execution.interpreter.now.millisUpTo limit = span.nanos / 1_000_000 := by
      unfold Duration.millisUpTo
      congr 1
      exact Nat.sub_eq_of_eq_add' sum.symm
    simpa [List.map_map, Function.comp_def, span] using notMore
  · obtain ⟨firings, _, punctual, answered⟩ := advances.punctual discreet idle expectant
      fun _ _ found => MachineSpec.delay_pos built found
    obtain ⟨total, _⟩ := answered fired isOk
    rw [punctual.entered, List.length_map, total, Nat.zero_add]

end

end Program

/-- A beacon that flashes every ten milliseconds. -/
def MachineSpec.beacon : MachineSpec :=
  (named "beacon").startingIn "lit"
    |>.child "lit"
      (StateSpec.atomic.delayed { millis := 10, target := "lit", actions := ["flash"] })

namespace Program

/-- Every flash is to be seen. -/
def beacon : Program Unit Unit where
  definition := MachineSpec.beacon.resolved
  registry.actions := [("flash", fun call => .done (.ok ⟨call.context, ["seen"]⟩))]
  listen _ _ := .done ()

/-- The beacon is to be lit. -/
def lighting : Execution Unit Unit :=
  .ofClient (.fresh MachineSpec.beacon.resolved none) () (.ask .start fun _ => .done ())

def lit : Execution Unit Unit := lighting.run beacon default 10

theorem discreet_beacon : beacon.Discreet :=
  discreet_of_silent (List.forall_mem_singleton.2 fun _ => trivial) fun _ _ => trivial

/-- The beacon has flashed three times. -/
def flashed : Standing Unit Unit :=
  ((moving lit.standing (.ofMillis 35)).runAt beacon (List.replicate 26 default)).standing

theorem lit_answers : beacon.Answers (List.replicate 26 default) lit.standing
    (.advance (.ofMillis 35)) (.ok 3)
    (beacon.chronicleAt (List.replicate 26 default) (moving lit.standing (.ofMillis 35)))
    flashed := by
  intro next
  constructor
  · cbv
  · cbv

theorem reachable_lit : beacon.Reachable lit := by
  have isNew : beacon.Begins (.fresh MachineSpec.beacon.resolved none) := .inl ⟨none, by cbv⟩
  exact ⟨_, _, _, isNew, (runsTo_run default 10 lighting).steps⟩

/-- In 35 milliseconds the beacon flashes three times, which is no more than once a millisecond. -/
theorem beacon_flashes_on :
    ∃ count chronicle t, beacon.Answers (firstReadings (fun _ => default) count) lit.standing
        (.advance (.ofMillis 35)) (.ok 3) chronicle t ∧
      ((Chronicle.entered chronicle).filterMap Signal.fired).length = 3 ∧ 3 ≤ 1 * (1 + 35) := by
  have facts : (lit.overflowed, lit.interpreter.busy, lit.interpreter.isRunning) =
      (false, false, true) := by cbv
  simp only [Prod.mk.injEq] at facts
  obtain ⟨inRange, isIdle, running⟩ := facts
  have unseen : (Request.advance (.ofMillis 35) : Request Unit) ≠ .look := by simp
  have isForgetful := discreet_beacon.forgetful
  have forgetful : (moving lit.standing (.ofMillis 35)).Forgetful :=
    List.forall_mem_singleton.2 (.client (Routine.forgetful_ask unseen fun _ => trivial))
  have rests : (moving lit.standing (.ofMillis 35)).runAt beacon
      (List.replicate 26 default ++ [default]) = flashed.does [] := by
    rw [Execution.runAt_append, moving, (lit_answers fun _ => .done ()).1]
    rfl
  have noWork := congrArg (·.work) rests
  have situated := (reachable_lit.driven inRange isIdle running
    (.ask (.advance (.ofMillis 35)) fun _ => .done ())).1
  have built : MachineSpec.beacon.build = .ok MachineSpec.beacon.resolved :=
    MachineSpec.build_eq_ok_iff.2 ⟨by decide +kernel, rfl⟩
  obtain ⟨count, answer, chronicle, t, answers, notMore, isCount⟩ := moving_the_clock_ends built
    discreet_beacon reachable_lit inRange isIdle running
    (fun _ _ run => run.inRange_of_rests situated isForgetful forgetful noWork
      (congrArg (·.overflowed) rests))
    (raisesFinitely_of_rests isForgetful forgetful noWork) fun _ => default
  obtain ⟨rfl, _⟩ := lit_answers.unique isForgetful unseen answers (.refl _)
  have three := (isCount 3 rfl).symm
  have keys : (beacon.definition.timersOf (List.range beacon.definition.size)).length = 1 := by cbv
  rw [three, keys] at notMore
  exact ⟨count, chronicle, t, answers, three, notMore⟩

end Program

end Statechart
