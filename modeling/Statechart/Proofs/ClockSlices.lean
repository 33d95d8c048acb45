import Statechart.Proofs.Advances

/-!
# Slices of the clock

A host may move the clock in slices of any length. Where no code makes requests it makes no
difference whether the clock is moved by two spans in turn or at once by their sum.
-/

namespace Statechart

variable {σ Listener : Type}

/-- What comes of moving the clock: how many timers have fired, what has happened, and where
the machine stands. -/
structure Elapsed (σ Listener : Type) where
  fired : Nat
  chronicle : Chronicle Listener
  standing : Standing σ Listener

/-- The same number of timers has fired, the same steps have taken effect, each triggered by the
same event or delayed transition and leading to the same snapshot, and subscribers have been
told the same; the machines stand alike but for the dates in their histories, and their clocks
agree unless the machines have come to an end. -/
structure Elapsed.Agrees (whole sliced : Elapsed σ Listener) : Prop where
  fired : sliced.fired = whole.fired
  committed : (Chronicle.commitments sliced.chronicle).map Commitment.undated =
    (Chronicle.commitments whole.chronicle).map Commitment.undated
  heard : ∀ number,
    Chronicle.heard sliced.chronicle number = Chronicle.heard whole.chronicle number
  configuration : sliced.standing.1.configuration = whole.standing.1.configuration
  context : sliced.standing.1.context = whole.standing.1.context
  lifecycle : sliced.standing.1.lifecycle = whole.standing.1.lifecycle
  snapshot : sliced.standing.1.snapshot = whole.standing.1.snapshot
  history : sliced.standing.1.history.undated = whole.standing.1.history.undated
  nextDeadline : sliced.standing.1.nextDeadline? = whole.standing.1.nextDeadline?
  now : sliced.standing.1.isRunning = true → sliced.standing.1.now = whole.standing.1.now

namespace Program

variable {program : Program σ Listener} {s t u : Standing σ Listener}
variable {readings : List Timestamp} {span limit : Duration} {chronicle : Chronicle Listener}

/-- The clock of a machine is moved by some spans in turn, and no move fails. -/
inductive Elapses (program : Program σ Listener) :
    Standing σ Listener → List Duration → Elapsed σ Listener → Prop
  | nil (s : Standing σ Listener) : Elapses program s [] ⟨0, [], s⟩
  | cons {s t u : Standing σ Listener} {readings : List Timestamp} {span : Duration}
      {spans : List Duration} {fired more : Nat} {chronicle later : Chronicle Listener}
      (answers : program.Answers readings s (.advance span) (.ok fired) chronicle t)
      (onward : Elapses program t spans ⟨more, later, u⟩) :
      Elapses program s (span :: spans) ⟨fired + more, chronicle ++ later, u⟩

theorem Elapses.single {elapsed : Elapsed σ Listener} (elapses : program.Elapses s [span] elapsed) :
    ∃ fired chronicle t readings,
      program.Answers readings s (.advance span) (.ok fired) chronicle t ∧
      elapsed = ⟨fired, chronicle, t⟩ := by
  cases elapses with
  | cons answers rest =>
      cases rest
      exact ⟨_, _, _, _, answers, by simp⟩

theorem Elapses.pair {a b : Duration} {sliced : Elapsed σ Listener}
    (elapses : program.Elapses s [a, b] sliced) :
    ∃ fired more before after earlier later t u,
      program.Answers earlier s (.advance a) (.ok fired) before t ∧
      program.Answers later t (.advance b) (.ok more) after u ∧
      sliced = ⟨fired + more, before ++ after, u⟩ := by
  cases elapses with
  | cons first onward =>
      cases onward with
      | cons second rest =>
          cases rest
          exact ⟨_, _, _, _, _, _, _, _, first, second, by simp⟩

/-- The clock of a machine starts to move. -/
theorem onward_asked (now : Timestamp) (running : s.1.isRunning = true)
    (sum : s.1.now.add? span = some limit) :
    program.Onward now s (fun next : Except InterpreterError Nat → Routine σ Listener Unit =>
      [.client (.ask (.advance span) next)]) [] fun next =>
        s.does [.advancing limit 0 fun answer => .client (next answer)] := by
  intro next
  simp [Execution.step?, Execution.proceed, Execution.meet, Standing.does, running, sum,
    happenings, Interpreter.requested]

/-- Moving the clock of a machine is answered once nothing is due any more. -/
theorem answers_advance_iff {answer : Except InterpreterError Nat} (discreet : program.Discreet)
    (idle : s.Idle) (running : s.1.isRunning = true) (sum : s.1.now.add? span = some limit) :
    program.Answers readings s (.advance span) answer chronicle t ↔
      ∃ now later, readings = now :: later ∧
        program.Advances limit later s 0 answer chronicle t := by
  have onward : ∀ now, program.Onward now s _ _ _ := fun now => onward_asked now running sum
  constructor
  · intro answers
    cases readings with
    | nil =>
        have isWork := (Standing.does_inj (answers fun _ => .done ()).1).2
        simp at isWork
    | cons now later =>
        have ends := (answers fun _ => .done ()).1
        rw [Execution.runAt_cons (onward now _).1] at ends
        obtain ⟨result, happens, u, advances⟩ := exists_advances discreet idle ends
        have answersToo : program.Answers (now :: later) s (.advance span) result happens u :=
          (onward now).brings.append fun next =>
            advances.brings idle fun answer => .client (next answer)
        rw [← List.append_nil (now :: later)] at answers
        obtain ⟨_, rfl, rfl, rfl⟩ := answersToo.eq_of_append answers
        exact ⟨now, later, rfl, advances⟩
  · rintro ⟨now, later, rfl, advances⟩
    exact (onward now).brings.append fun next =>
      advances.brings idle fun answer => .client (next answer)

/-- The clock of a machine that has halted stands still. -/
theorem answers_advance_iff_of_halted {answer : Except InterpreterError Nat}
    (halted : s.1.isRunning = false) :
    program.Answers readings s (.advance span) answer chronicle t ↔
      (∃ now, readings = [now]) ∧ answer = .ok 0 ∧ chronicle = [] ∧ t = s := by
  have onward : ∀ now, program.Onward now s
      (fun next : Except InterpreterError Nat → Routine σ Listener Unit =>
        [.client (.ask (.advance span) next)]) []
      fun next => s.does [.client (next (.ok 0))] := by
    intro now next
    simp [Execution.step?, Execution.proceed, Execution.meet, Standing.does, halted,
      happenings, Interpreter.requested]
  constructor
  · intro answers
    cases readings with
    | nil =>
        have isWork := (Standing.does_inj (answers fun _ => .done ()).1).2
        simp at isWork
    | cons now later =>
        obtain ⟨rfl, rfl, rfl, rfl⟩ := (onward now).brings.eq_of_append answers
        exact ⟨⟨now, rfl⟩, rfl, rfl, rfl⟩
  · rintro ⟨⟨now, rfl⟩, rfl, rfl, rfl⟩
    exact (onward now).brings

section Halt

variable {a b c halt : Duration} (discreet : program.Discreet) (idle : s.Idle)
variable (running : s.1.isRunning = true) (reaches : s.1.now.add? c = some limit)
variable (halts : s.1.now.add? a = some halt) (goesOn : halt.add? b = some limit)

include discreet idle running reaches halts goesOn

/-- Moving the clock to a halt and on is moving it at once, but that the clock of a machine that
comes to an end on the way stands still. -/
theorem Elapses.join {sliced : Elapsed σ Listener} (elapses : program.Elapses s [a, b] sliced) :
    ∃ readings u,
      program.Answers readings s (.advance c) (.ok sliced.fired) sliced.chronicle u ∧
      (u = sliced.standing ∨ sliced.standing.1.isRunning = false ∧
        u = (sliced.standing.1.settled limit, sliced.standing.2)) := by
  have inTime : s.1.now ≤ halt := Duration.le_add? halts
  have within : halt ≤ limit := Duration.le_add? goesOn
  obtain ⟨fired, more, before, after, earlier, later, mid, u, first, second, rfl⟩ := elapses.pair
  obtain ⟨now, earlier, rfl, toHalt⟩ := (answers_advance_iff discreet idle running halts).1 first
  cases onward : mid.1.isRunning with
  | true =>
      rw [← toHalt.now_eq inTime] at goesOn
      obtain ⟨_, later, rfl, toLimit⟩ :=
        (answers_advance_iff discreet (toHalt.idle idle) onward goesOn).1 second
      obtain ⟨count, isCount, onward⟩ := toLimit.shift fired
      obtain rfl : more = count := isCount.trans (Nat.zero_add _)
      obtain ⟨readings, advances⟩ := toHalt.join within onward inTime
      exact ⟨now :: readings, u, (answers_advance_iff discreet idle running reaches).2
        ⟨now, readings, rfl, advances⟩, .inl rfl⟩
  | false =>
      obtain ⟨_, isZero, rfl, rfl⟩ := (answers_advance_iff_of_halted onward).1 second
      cases isZero
      have nothing : u.1.due? limit = none := by simp [Interpreter.due?, onward]
      obtain ⟨readings, advances⟩ :=
        toHalt.join within (.settles now fired nothing) inTime
      rw [List.append_nil] at *
      exact ⟨now :: readings, _, (answers_advance_iff discreet idle running reaches).2
        ⟨now, readings, rfl, advances⟩, .inr ⟨onward, rfl⟩⟩

/-- What is done at once may be done in two slices. -/
theorem Answers.exists_slices {fired : Nat}
    (answers : program.Answers readings s (.advance c) (.ok fired) chronicle t) :
    ∃ sliced, program.Elapses s [a, b] sliced := by
  have inTime : s.1.now ≤ halt := Duration.le_add? halts
  have within : halt ≤ limit := Duration.le_add? goesOn
  obtain ⟨now, later, rfl, advances⟩ :=
    (answers_advance_iff discreet idle running reaches).1 answers
  obtain ⟨_, _, _, _, _, mid, toHalt, toLimit⟩ := advances.split within inTime
  have first := (answers_advance_iff discreet idle running halts).2 ⟨now, _, rfl, toHalt⟩
  cases onward : mid.1.isRunning with
  | true =>
      rw [← toHalt.now_eq inTime] at goesOn
      obtain ⟨_, _, toLimit⟩ := toLimit.shift 0
      have second := (answers_advance_iff discreet (toHalt.idle idle) onward goesOn).2
        ⟨now, _, rfl, toLimit⟩
      exact ⟨_, .cons first (.cons second (.nil _))⟩
  | false =>
      have second : program.Answers [now] mid (.advance b) (.ok 0) [] mid :=
        (answers_advance_iff_of_halted onward).2 ⟨⟨now, rfl⟩, rfl, rfl, rfl⟩
      exact ⟨_, .cons first (.cons second (.nil _))⟩

end Halt

section

variable {execution : Execution σ Listener}

/-- A machine that has not been stopped and that nothing occupies may be driven on by any
code. -/
theorem Reachable.unoccupied (reachable : program.Reachable execution)
    (inRange : execution.overflowed = false) (isIdle : execution.interpreter.busy = false)
    (lasts : execution.interpreter.lifecycle ≠ .stopped) (code : Routine σ Listener Unit) :
    program.Situated .outside (execution.standing.does [.client code]) ∧
      program.Booked .outside execution.interpreter ∧ execution.standing.Idle := by
  obtain ⟨phase, situated, booked⟩ := reachable.booked inRange
  obtain rfl := situated.fits.eq_outside isIdle lasts
  have tidy := situated.settled.tidy
  refine ⟨⟨rfl, ?_, .hosted .client (Work.leads_client code), situated.fits⟩, booked,
    isIdle, (tidy.idle isIdle).1, (tidy.idle isIdle).2⟩
  exact Sound.orderly ⟨tidy, .inl ⟨.client code, isIdle⟩⟩ rfl

theorem Reachable.driven (reachable : program.Reachable execution)
    (inRange : execution.overflowed = false) (isIdle : execution.interpreter.busy = false)
    (running : execution.interpreter.isRunning = true) (code : Routine σ Listener Unit) :
    program.Situated .outside (execution.standing.does [.client code]) ∧
      program.Booked .outside execution.interpreter ∧ execution.standing.Idle := by
  refine reachable.unoccupied inRange isIdle ?_ code
  intro isStopped
  simp [Interpreter.isRunning, isStopped] at running

/-- Once a machine has come to an end no timer is armed. -/
theorem RunsTo.disarmed {start last : Execution σ Listener} {phase : Phase σ Listener}
    (run : program.RunsTo start chronicle last) (inRange : last.overflowed = false)
    (situated : program.Situated phase start) (booked : program.Booked phase start.interpreter)
    (halted : last.interpreter.lifecycle ≠ .running) : last.interpreter.timers.armed = [] := by
  obtain ⟨_, _, booked⟩ := run.induct (fun phase i _ => program.Booked phase i) inRange situated
    booked fun _ move => move.booked
  exact booked.halted (.inl halted)

/-- Once a machine has come to an end nothing is due any more. -/
theorem Answers.halted {request : Request Listener} {answer : request.Answer}
    (answers : program.Answers readings s request answer chronicle t)
    (situated : ∀ code, program.Situated .outside (s.does [.client code]))
    (booked : program.Booked .outside s.1) (halted : t.1.isRunning = false) :
    t.1.timers.armed = [] := by
  refine (answers.runsTo fun _ => .done ()).disarmed rfl (situated _) booked ?_
  simpa [Standing.does, Interpreter.isRunning] using halted

/-- Two outcomes agree if the machines stand alike, the clock of one that has halted aside. -/
theorem agrees_of_alike {sliced : Elapsed σ Listener} {fired : Nat} (limit : Duration)
    (sameCount : fired = sliced.fired)
    (sameChronicle : chronicle.undated = sliced.chronicle.undated) (alike : u.Alike t)
    (stands : u = sliced.standing ∨ sliced.standing.1.isRunning = false ∧
      sliced.standing.1.timers.armed = [] ∧
      u = (sliced.standing.1.settled limit, sliced.standing.2)) :
    Elapsed.Agrees ⟨fired, chronicle, t⟩ sliced := by
  have same : ∀ {α : Type} (field : Interpreter Listener → α),
      field (u.1.withHistory t.1.history) = field t.1 :=
    fun field => (congrArg field alike.interpreter).symm
  have committed : (Chronicle.commitments sliced.chronicle).map Commitment.undated =
      (Chronicle.commitments chronicle).map Commitment.undated := by
    rw [← Chronicle.commitments_undated, ← Chronicle.commitments_undated, sameChronicle]
  have heard : ∀ number,
      Chronicle.heard sliced.chronicle number = Chronicle.heard chronicle number := by
    intro number
    rw [← Chronicle.heard_undated, ← sameChronicle, Chronicle.heard_undated]
  rcases stands with rfl | ⟨halted, nothing, rfl⟩
  · exact ⟨sameCount.symm, committed, heard, same (·.configuration), same (·.context),
      same (·.lifecycle), same (·.snapshot), alike.history.symm, same (·.nextDeadline?),
      fun _ => same (·.now)⟩
  · have noDeadline : ∀ timers : Timers, timers.armed = [] → timers.nextDeadline? = none := by
      intro timers isEmpty
      simp [Timers.nextDeadline?, isEmpty, Timers.first?]
    have sameDeadline := (noDeadline _ nothing).trans
      (noDeadline (sliced.standing.1.timers.settle limit) nothing).symm
    exact ⟨sameCount.symm, committed, heard, same (·.configuration), same (·.context),
      same (·.lifecycle), same (·.snapshot), alike.history.symm,
      sameDeadline.trans (same (·.nextDeadline?)),
      fun runs => by cases runs.symm.trans halted⟩

/-- Slices of the clock make no difference. -/
theorem clock_slices {a b c : Duration} (discreet : program.Discreet)
    (reachable : program.Reachable execution) (inRange : execution.overflowed = false)
    (isIdle : execution.interpreter.busy = false)
    (running : execution.interpreter.isRunning = true) (sum : a.add? b = some c)
    (reaches : execution.interpreter.now.add? c = some limit) :
    ((∃ sliced, program.Elapses execution.standing [a, b] sliced) ↔
        ∃ whole, program.Elapses execution.standing [c] whole) ∧
      ∀ sliced whole, program.Elapses execution.standing [a, b] sliced →
        program.Elapses execution.standing [c] whole → whole.Agrees sliced := by
  obtain ⟨_, booked, idle⟩ := reachable.driven inRange isIdle running (.done ())
  obtain ⟨halt, halts, goesOn⟩ := Duration.exists_add?_add? sum reaches
  refine ⟨⟨fun ⟨sliced, elapses⟩ => ?_, fun ⟨whole, elapses⟩ => ?_⟩,
    fun sliced whole inSlices atOnce => ?_⟩
  · obtain ⟨_, _, answers, _⟩ := elapses.join discreet idle running reaches halts goesOn
    exact ⟨_, .cons answers (.nil _)⟩
  · obtain ⟨_, _, _, _, answers, _⟩ := elapses.single
    exact answers.exists_slices discreet idle running reaches halts goesOn
  · obtain ⟨readings, u, joined, stands⟩ :=
      inSlices.join discreet idle running reaches halts goesOn
    obtain ⟨fired, chronicle, t, _, answers, rfl⟩ := atOnce.single
    have unseen : (Request.advance c : Request Listener) ≠ .look := by simp
    obtain ⟨sameAnswer, sameChronicle, alike⟩ :=
      joined.unique discreet.forgetful unseen answers (.refl _)
    have sameCount : fired = sliced.fired := Except.ok.inj sameAnswer
    refine agrees_of_alike limit sameCount sameChronicle alike
      (stands.imp_right fun ⟨halted, isSettled⟩ => ?_)
    have settledHalted : u.1.isRunning = false := by
      rw [isSettled]
      exact halted
    have nothing := joined.halted (fun code =>
      (reachable.driven inRange isIdle running code).1) booked settledHalted
    exact ⟨halted, by rwa [isSettled] at nothing, isSettled⟩

end

/-- Someone subscribes, starts the hall and comes in. -/
def entering : Execution Unit Unit :=
  .ofClient (.fresh MachineSpec.hall.resolved none) () do
    let _ ← Routine.request (.subscribe ())
    let _ ← Routine.request .start
    let _ ← Routine.request (.send "open")

/-- The hall with its light on and its door open. -/
def entered : Execution Unit Unit := entering.run quietHall default 30

/-- Then time passes until the light has gone out and the door has fallen shut. -/
def waiting : Execution Unit Unit :=
  entered.standing.does [.client (.ask (.advance (.ofMillis 80)) fun _ => .done ())]

def waited : Standing Unit Unit := (waiting.runAt quietHall (List.replicate 16 default)).standing

theorem waiting_answers : quietHall.Answers (List.replicate 16 default) entered.standing
    (.advance (.ofMillis 80)) (.ok 2) (quietHall.chronicleAt (List.replicate 16 default) waiting)
    waited := by
  intro next
  constructor
  · cbv
  · cbv

theorem reachable_entered : quietHall.Reachable entered := by
  have run : quietHall.RunsTo entering _ entered := runsTo_run default 30 entering
  have isNew : quietHall.Begins (.fresh MachineSpec.hall.resolved none) := .inl ⟨none, by cbv⟩
  exact ⟨_, _, _, isNew, run.steps⟩

theorem entered_idle : entered.overflowed = false ∧ entered.interpreter.busy = false ∧
    entered.interpreter.isRunning = true ∧
    entered.interpreter.now.add? (.ofMillis 80) = some (.ofMillis 80) := by
  have facts : (entered.overflowed, entered.interpreter.busy, entered.interpreter.isRunning,
      entered.interpreter.now) = (false, false, true, .zero) := by cbv
  simp only [Prod.mk.injEq] at facts
  obtain ⟨inRange, isIdle, running, atZero⟩ := facts
  refine ⟨inRange, isIdle, running, ?_⟩
  rw [atZero]
  exact Duration.add?_eq_some.2 (by decide)

/-- Light and door do the same whether or not the clock halts between. -/
theorem quiet_hall_slices :
    ∃ sliced whole, quietHall.Elapses entered.standing [.ofMillis 40, .ofMillis 40] sliced ∧
      quietHall.Elapses entered.standing [.ofMillis 80] whole ∧ whole.Agrees sliced ∧
      sliced.fired = 2 := by
  obtain ⟨inRange, isIdle, running, reaches⟩ := entered_idle
  have sum : (Duration.ofMillis 40).add? (.ofMillis 40) = some (.ofMillis 80) :=
    Duration.add?_eq_some.2 (by decide)
  obtain ⟨sameOutcomes, agree⟩ := clock_slices discreet_quietHall reachable_entered inRange isIdle
    running sum reaches
  have atOnce : quietHall.Elapses entered.standing [.ofMillis 80] _ := .cons waiting_answers (.nil _)
  obtain ⟨sliced, inSlices⟩ := sameOutcomes.2 ⟨_, atOnce⟩
  have agrees := agree sliced _ inSlices atOnce
  exact ⟨sliced, _, inSlices, atOnce, agrees, agrees.fired⟩

end Program

end Statechart
