import Mathlib.Order.WellFounded
import Statechart.Proofs.Forgetful
import Statechart.Proofs.Passes

/-!
# Generations of signals

The signals that wait at one time are a generation: the pass over the queue takes them one after
another, and what waits then are the events that their steps have raised, the next generation.
Where no code makes requests, every generation is done with after finitely many small steps. So a
pass comes to its end, at whatever readings of the clock, unless generation follows generation for
ever or the clock leaves its range.
-/

namespace Statechart

variable {σ Listener : Type}

/-- The first readings of a clock. -/
def firstReadings (clock : ℕ → Timestamp) (count : ℕ) : List Timestamp :=
  (List.range count).map clock

theorem firstReadings_succ (clock : ℕ → Timestamp) (count : ℕ) :
    firstReadings clock (count + 1) =
      clock 0 :: firstReadings (fun n => clock (n + 1)) count := by
  simp [firstReadings, List.range_succ_eq_map, Function.comp_def]

theorem firstReadings_add (clock : ℕ → Timestamp) (count more : ℕ) :
    firstReadings clock (count + more) =
      firstReadings clock count ++ firstReadings (fun n => clock (count + n)) more := by
  simp [firstReadings, List.range_add, Function.comp_def]

namespace Strand

/-- The pass over the queue, between two signals. -/
abbrev draining (first : Option Delivery) (failure : Option InterpreterError) :
    Strand σ Listener :=
  fun resume => [.draining { first, failure, resume }]

abbrev notifying (subscribers : List (Nat × Listener)) (snapshot : Snapshot)
    (first : Option Delivery) (failure : Option InterpreterError) : Strand σ Listener :=
  fun resume => .notifying subscribers snapshot :: draining first failure resume

abbrev listening (code : Routine σ Listener Unit) (subscribers : List (Nat × Listener))
    (snapshot : Snapshot) (first : Option Delivery) (failure : Option InterpreterError) :
    Strand σ Listener :=
  fun resume => .listening code :: notifying subscribers snapshot first failure resume

/-- A step of a signal, with the actions that are still to run. -/
abbrev stepping (fired : Option (TimerKey × Nat)) (first : Option Delivery)
    (failure : Option InterpreterError) (event : String) (plan : Plan)
    (pending : List Invocation) (context : Context) (raised : List String) : Strand σ Listener :=
  fun resume =>
    [.stepping ⟨.signal fired { first, failure, resume }, event, plan, pending, context, raised⟩]

abbrev acting (fired : Option (TimerKey × Nat)) (first : Option Delivery)
    (failure : Option InterpreterError) (event : String) (plan : Plan)
    (pending : List Invocation) (context : Context) (raised : List String) (call : Invocation)
    (code : Routine σ Listener (Except String ActionEffect)) : Strand σ Listener :=
  fun resume =>
    [.acting ⟨.signal fired { first, failure, resume }, event, plan, pending, context, raised⟩
      call code]

end Strand

namespace Program

open Chronicle

/-- A pass over the queue takes the signals that wait, one after another, and then the events
wait that their steps have raised. -/
def Begets (program : Program σ Listener) (before after : Execution σ Listener) : Prop :=
  (∃ drain rest, before.work = .draining drain :: rest) ∧
    (∃ drain rest, after.work = .draining drain :: rest) ∧
    after.interpreter.queue ≠ [] ∧
    ∃ chronicle, program.RunsTo before chronicle after ∧
      taken chronicle = before.interpreter.queue ∧
      Chronicle.entered chronicle = after.interpreter.queue ∧
      ∀ signal ∈ Chronicle.entered chronicle, signal.fired = none

/-- A pass over the queue comes to its end, at whatever readings of the clock. -/
def Subsides (program : Program σ Listener) (s : Standing σ Listener)
    (strand : Strand σ Listener) : Prop :=
  ∀ clock : ℕ → Timestamp, ∃ count chronicle result t,
    program.Passes (firstReadings clock count) s strand chronicle result t

/-- Work of a pass stays within the range of the clock, and once it has taken some signals from
the queue and come to their end, the rest of the pass comes to its end. -/
structure Awaits (program : Program σ Listener)
    (resume : Except InterpreterError Delivery → Work σ Listener) (s : Standing σ Listener)
    (strand : Strand σ Listener) (signals : List Signal) : Prop where
  inRange : ∀ chronicle last, program.RunsTo (s.does (strand resume)) chronicle last →
    last.overflowed = false
  subsides : ∀ chronicle t first failure,
    program.RunsTo (s.does (strand resume)) chronicle
      (t.does (Strand.draining first failure resume)) →
    taken chronicle = signals → s.1.queue ++ Chronicle.entered chronicle = signals ++ t.1.queue →
    (∀ signal ∈ Chronicle.entered chronicle, signal.fired = none) → t.1.pendingStop = none →
    program.Subsides t (Strand.draining first failure)

variable {program : Program σ Listener} {s t : Standing σ Listener} {now : Timestamp}
variable {strand later : Strand σ Listener} {chronicle : Chronicle Listener}
variable {resume : Except InterpreterError Delivery → Work σ Listener} {signals : List Signal}

theorem Awaits.onward (awaits : program.Awaits resume s strand (taken chronicle ++ signals))
    (onward : program.Onward now s strand chronicle fun resume => t.does (later resume))
    (inOrder : s.1.queue ++ Chronicle.entered chronicle = taken chronicle ++ t.1.queue)
    (events : ∀ signal ∈ Chronicle.entered chronicle, signal.fired = none) :
    program.Awaits resume t later signals where
  inRange further last run := awaits.inRange _ last ((onward.brings.runsTo resume).trans run)
  subsides further u first failure run isTaken inOrderLater eventsLater noStop := by
    have whole := (onward.brings.runsTo resume).trans run
    refine awaits.subsides _ u first failure whole ?_ ?_ ?_ noStop
    · rw [taken_append, isTaken]
    · rw [entered_append, ← List.append_assoc, inOrder, List.append_assoc, inOrderLater,
        List.append_assoc]
    · rw [entered_append, List.forall_mem_append]
      exact ⟨events, eventsLater⟩

/-- A pass comes to its end if it does after its next small step. -/
theorem Subsides.of_onward (onward : ∀ now, ∃ chronicle t later,
      program.Onward now s strand chronicle (fun resume => t.does (later resume)) ∧
      program.Subsides t later) : program.Subsides s strand := by
  intro clock
  obtain ⟨chronicle, t, later, onward, subsides⟩ := onward (clock 0)
  obtain ⟨count, further, result, u, passes⟩ := subsides fun n => clock (n + 1)
  refine ⟨count + 1, chronicle ++ further, result, u, ?_⟩
  rw [firstReadings_succ]
  exact onward.brings.append passes

theorem Awaits.step (awaits : program.Awaits resume s strand signals)
    (steps : ∀ now, ∃ chronicle t later rest,
      program.Onward now s strand chronicle (fun resume => t.does (later resume)) ∧
      signals = taken chronicle ++ rest ∧
      s.1.queue ++ Chronicle.entered chronicle = taken chronicle ++ t.1.queue ∧
      (∀ signal ∈ Chronicle.entered chronicle, signal.fired = none) ∧
      (program.Awaits resume t later rest → program.Subsides t later)) :
    program.Subsides s strand := by
  refine .of_onward fun now => ?_
  obtain ⟨chronicle, t, later, rest, onward, rfl, inOrder, events, subsides⟩ := steps now
  exact ⟨chronicle, t, later, onward, subsides (awaits.onward onward inOrder events)⟩

section Signal

variable {i : Interpreter Listener} {memory : σ} {first : Option Delivery}
variable {failure : Option InterpreterError} {subscribers : List (Nat × Listener)}
variable {snapshot : Snapshot} {fired : Option (TimerKey × Nat)} {event : String} {plan : Plan}
variable {pending : List Invocation} {context : Context} {raised : List String}

theorem Awaits.rests {left : σ} (awaits : program.Awaits resume (i, memory) strand signals)
    (onward : ∀ now, program.Onward now (i, memory) strand [] fun resume =>
      Standing.does (i, left) (later resume))
    (goesOn : program.Awaits resume (i, left) later signals →
      program.Subsides (i, left) later) : program.Subsides (i, memory) strand :=
  awaits.step fun now => ⟨[], (i, left), later, signals, onward now, rfl, by simp, by simp, goesOn⟩

theorem subsides_draining (awaits : program.Awaits resume s (Strand.draining first failure) [])
    (noStop : s.1.pendingStop = none) : program.Subsides s (Strand.draining first failure) :=
  awaits.subsides [] s first failure .refl rfl (by simp) (by simp) noStop

/-- Silent code of a listener comes to its end. -/
theorem subsides_listening {code : Routine σ Listener Unit} (silent : code.Silent)
    (goesOn : ∀ memory,
      program.Awaits resume (i, memory) (Strand.notifying subscribers snapshot first failure)
        signals →
      program.Subsides (i, memory) (Strand.notifying subscribers snapshot first failure))
    (awaits : program.Awaits resume (i, memory)
      (Strand.listening code subscribers snapshot first failure) signals) :
    program.Subsides (i, memory) (Strand.listening code subscribers snapshot first failure) := by
  induction code generalizing memory with
  | done result => exact awaits.rests (fun _ _ => ⟨rfl, rfl⟩) (goesOn memory)
  | read next ih => exact awaits.rests (fun _ _ => ⟨rfl, rfl⟩) (ih memory (silent memory))
  | write left next ih => exact awaits.rests (fun _ _ => ⟨rfl, rfl⟩) (ih silent)
  | ask request next => exact silent.elim

theorem subsides_notifying (discreet : program.Discreet) (noStop : i.pendingStop = none)
    (awaits : program.Awaits resume (i, memory)
      (Strand.notifying subscribers snapshot first failure) []) :
    program.Subsides (i, memory) (Strand.notifying subscribers snapshot first failure) := by
  induction subscribers generalizing memory with
  | nil =>
      exact awaits.rests (fun _ _ => ⟨rfl, rfl⟩) fun awaits => subsides_draining awaits noStop
  | cons subscriber subscribers ih =>
      obtain ⟨number, listener⟩ := subscriber
      refine awaits.step fun now => ⟨[.told number listener snapshot], (i, memory),
        Strand.listening (program.listen listener snapshot) subscribers snapshot first failure, [],
        fun _ => ⟨rfl, rfl⟩, rfl, by simp [Happening.entered?, Happening.taken?],
        by simp [Happening.entered?], ?_⟩
      exact subsides_listening (discreet.listeners listener snapshot) fun _ => ih

/-- Silent code of an action comes to its end: the step goes on, or it fails and the pass goes
on. -/
theorem subsides_acting {call : Invocation}
    {code : Routine σ Listener (Except String ActionEffect)} (silent : code.Silent)
    (noStop : i.pendingStop = none)
    (goesOn : ∀ memory (effect : ActionEffect),
      program.Awaits resume (i, memory) (Strand.stepping fired first failure event plan pending
        effect.context (raised ++ effect.raised)) [] →
      program.Subsides (i, memory) (Strand.stepping fired first failure event plan pending
        effect.context (raised ++ effect.raised)))
    (awaits : program.Awaits resume (i, memory)
      (Strand.acting fired first failure event plan pending context raised call code) []) :
    program.Subsides (i, memory)
      (Strand.acting fired first failure event plan pending context raised call code) := by
  induction code generalizing memory with
  | done result =>
      cases result with
      | ok effect => exact awaits.rests (fun _ _ => ⟨rfl, rfl⟩) (goesOn memory effect)
      | error reason =>
          let error : InterpreterError := .actionFailed call.action
            (program.definition.node call.state).id event reason
          refine awaits.step fun now => ⟨[],
            ({ i with timers := i.timers.afterFailure fired }, memory),
            Strand.draining (first.or (some .rejected)) (failure.or (some error)), [], fun _ => ?_,
            rfl, by simp, by simp, fun awaits => subsides_draining awaits noStop⟩
          cases fired <;> exact ⟨rfl, rfl⟩
  | read next ih => exact awaits.rests (fun _ _ => ⟨rfl, rfl⟩) (ih memory (silent memory))
  | write left next ih => exact awaits.rests (fun _ _ => ⟨rfl, rfl⟩) (ih silent)
  | ask request next => exact silent.elim

/-- A step that has run all its actions is committed or discarded, and the pass goes on. -/
theorem subsides_committing (discreet : program.Discreet) (noStop : i.pendingStop = none)
    (awaits : program.Awaits resume (i, memory)
      (Strand.stepping fired first failure event plan [] context raised) []) :
    program.Subsides (i, memory)
      (Strand.stepping fired first failure event plan [] context raised) := by
  refine awaits.step fun now => ?_
  have onward := onward_committing program now (i, memory) fired first failure event plan context
    raised
  cases isCommit : i.commit program.definition now
      ⟨event, fired, true, plan, context, raised⟩ with
  | discarded =>
      have nothing : i.ended program.definition now
          ⟨event, fired, true, plan, context, raised⟩ = [] := by
        simp [Interpreter.ended, isCommit]
      rw [isCommit, nothing] at onward
      exact ⟨[], (i, memory), Strand.draining (first.or (some .rejected)) failure, [], onward, rfl,
        by simp, by simp, fun awaits => subsides_draining awaits noStop⟩
  | overflow after =>
      rw [isCommit] at onward
      cases awaits.inRange _ _ (.tail .refl (onward resume).1)
  | published after =>
      rw [isCommit] at onward
      have published := Interpreter.published_of_commit isCommit
      obtain ⟨_, _, queue⟩ := published.outcome
      refine ⟨_, (after, memory), Strand.notifying after.listeners after.snapshot
        (first.or (some .processed)) failure, [], onward, ?_, ?_, ?_,
        subsides_notifying discreet (published.pendingStop.trans noStop)⟩
      all_goals rw [Interpreter.ended_of_published isCommit]
      · split <;> simp [Happening.taken?]
      · rcases queue with ⟨isDone, _, queue⟩ | ⟨isRunning, _, queue⟩
        · simp [isDone, queue, Happening.entered?, Happening.taken?]
        · simp [isRunning, queue, Happening.entered?, Happening.taken?]
      · split <;> simp [Happening.entered?, Signal.fired]

/-- The actions of a step come to their ends, one after another. -/
theorem subsides_stepping (discreet : program.Discreet) (noStop : i.pendingStop = none)
    (awaits : program.Awaits resume (i, memory)
      (Strand.stepping fired first failure event plan pending context raised) []) :
    program.Subsides (i, memory)
      (Strand.stepping fired first failure event plan pending context raised) := by
  induction pending generalizing memory context raised with
  | nil => exact subsides_committing discreet noStop awaits
  | cons call pending ih =>
      have onward := fun now => onward_calling program now (i, memory) fired first failure event
        plan call pending context raised
      cases isAction : program.registry.action? call.action with
      | none =>
          simp only [isAction] at onward
          exact awaits.rests onward ih
      | some action =>
          simp only [isAction] at onward
          have silent := discreet.actions _ _ isAction
            ⟨context, event, (program.definition.node call.state).id⟩
          exact awaits.rests onward (subsides_acting silent noStop fun _ _ => ih)

/-- One signal is taken and done with. -/
theorem subsides_taking {signal : Signal} {queue : List Signal} (discreet : program.Discreet)
    (noStop : i.pendingStop = none) (isQueue : i.queue = signal :: queue)
    (awaits : program.Awaits resume (i, memory) (Strand.draining first failure) [signal]) :
    program.Subsides (i, memory) (Strand.draining first failure) := by
  refine awaits.step fun now => ?_
  have inOrder : i.queue ++ Chronicle.entered [(.taken signal : Happening Listener)] =
      taken [(.taken signal : Happening Listener)] ++ queue := by
    simp [isQueue, Happening.entered?, Happening.taken?]
  have noEvents : ∀ event ∈ Chronicle.entered [(.taken signal : Happening Listener)],
      event.fired = none := by
    simp [Happening.entered?]
  rcases onward_taking (s := (i, memory)) now isQueue first failure with
    ⟨other, _, onward⟩ | ⟨_, event, plan, onward⟩
  · exact ⟨_, ({ i with queue }, memory), Strand.draining other failure, [], onward, rfl, inOrder,
      noEvents, fun awaits => subsides_draining awaits noStop⟩
  · exact ⟨_, ({ i with queue }, memory),
      Strand.stepping signal.fired first failure event plan plan.invocations i.context [], [],
      onward, rfl, inOrder, noEvents, subsides_stepping discreet noStop⟩

end Signal

/-! ## One generation after another -/

/-- Generations do not follow one another without end. -/
def RaisesFinitely (program : Program σ Listener) (start : Execution σ Listener) : Prop :=
  ∀ chain : ℕ → Execution σ Listener, (∃ chronicle, program.RunsTo start chronicle (chain 0)) →
    ¬ ∀ n, program.Begets (chain n) (chain (n + 1))

variable {start : Execution σ Listener} {before : Chronicle Listener}
variable {first : Option Delivery} {failure : Option InterpreterError}

/-- What is left of a generation is taken, one signal after another, and then the pass is over
or another generation waits. -/
theorem subsides_remaining (discreet : program.Discreet)
    (inRange : ∀ chronicle last, program.RunsTo (s.does (Strand.draining first failure resume))
      chronicle last → last.overflowed = false)
    (next : ∀ chronicle u first' failure',
      program.RunsTo (s.does (Strand.draining first failure resume)) chronicle
        (u.does (Strand.draining first' failure' resume)) →
      program.Begets (s.does (Strand.draining first failure resume))
        (u.does (Strand.draining first' failure' resume)) → u.1.pendingStop = none →
      program.Subsides u (Strand.draining first' failure'))
    (remaining : List Signal) {first' : Option Delivery} {failure' : Option InterpreterError}
    (run : program.RunsTo (s.does (Strand.draining first failure resume)) before
      (t.does (Strand.draining first' failure' resume)))
    (isQueue : s.1.queue = taken before ++ remaining)
    (waits : t.1.queue = remaining ++ Chronicle.entered before)
    (events : ∀ signal ∈ Chronicle.entered before, signal.fired = none)
    (noStop : t.1.pendingStop = none) :
    program.Subsides t (Strand.draining first' failure') := by
  induction remaining generalizing t before first' failure' with
  | nil =>
      rw [List.append_nil] at isQueue
      rw [List.nil_append] at waits
      by_cases isEmpty : t.1.queue = []
      · intro clock
        have returns : program.Onward (clock 0) t _ _ _ :=
          onward_returned noStop isEmpty first' failure'
        exact ⟨1, [], _, _, returns.brings⟩
      · exact next _ _ _ _ run
          ⟨⟨_, _, rfl⟩, ⟨_, _, rfl⟩, isEmpty, before, run, isQueue.symm, waits.symm, events⟩ noStop
  | cons signal remaining ih =>
      have inRange : ∀ later last, program.RunsTo (t.does (Strand.draining first' failure' resume))
          later last → last.overflowed = false := fun _ last further =>
        inRange _ last (run.trans further)
      refine subsides_taking discreet noStop waits ⟨inRange, ?_⟩
      intro later u _ _ further isTaken inOrder eventsLater noStop
      refine ih (run.trans further) ?_ ?_ ?_ noStop
      · rw [taken_append, isTaken, isQueue]
        simp
      · rw [waits] at inOrder
        rw [entered_append]
        simpa using inOrder.symm
      · rw [entered_append, List.forall_mem_append]
        exact ⟨events, eventsLater⟩

/-- Where the clock stays in its range and generations do not follow one another for ever, every
pass over the queue comes to its end. -/
theorem RaisesFinitely.subsides (finitely : program.RaisesFinitely start)
    (discreet : program.Discreet)
    (inRange : ∀ chronicle last, program.RunsTo start chronicle last → last.overflowed = false)
    (run : program.RunsTo start before (s.does (Strand.draining first failure resume)))
    (noStop : s.1.pendingStop = none) : program.Subsides s (Strand.draining first failure) := by
  have wellFounded : WellFounded fun after before : Execution σ Listener =>
      (∃ chronicle, program.RunsTo start chronicle before) ∧ program.Begets before after := by
    rw [wellFounded_iff_isEmpty_descending_chain]
    exact ⟨fun ⟨chain, begets⟩ => finitely chain (begets 0).1 fun n => (begets n).2⟩
  generalize isOrigin : s.does (Strand.draining first failure resume) = origin at run
  induction origin using wellFounded.induction generalizing s first failure before with
  | _ origin ih =>
      subst isOrigin
      refine subsides_remaining discreet (fun _ last further => inRange _ last (run.trans further))
        (fun _ u _ _ further begets noStop => ?_) s.1.queue .refl rfl (by simp) (by simp) noStop
      exact ih _ ⟨⟨_, run⟩, begets⟩ noStop rfl (run.trans further)

/-! ## Code that comes to rest -/

section Rest

variable {last : Execution σ Listener} {readings : List Timestamp}

/-- Forgetful code that comes to its end along some readings does so after every run, and then
what has happened is the same but for dates. -/
theorem RunsTo.exists_rest (run : program.RunsTo start chronicle last)
    (isForgetful : program.Forgetful) (forgetful : start.Forgetful)
    (rests : (start.runAt program readings).work = []) :
    ∃ further final, program.RunsTo last further final ∧
      final.overflowed = (start.runAt program readings).overflowed ∧
      (chronicle ++ further).undated = (program.chronicleAt readings start).undated := by
  obtain ⟨others, rfl, rfl⟩ := run.exists_readings
  have sameLength : (others ++ readings).length = (readings ++ others).length := by
    simp [Nat.add_comm]
  obtain ⟨ends, happens⟩ :=
    runAt_withHistory start.interpreter.history isForgetful forgetful sameLength
  have same : start.withHistory start.interpreter.history = start := rfl
  rw [same, Execution.runAt_append, Execution.runAt_append,
    Execution.runAt_of_no_work rests] at ends
  rw [same, Execution.chronicleAt_append, Execution.chronicleAt_append,
    Execution.chronicleAt_of_no_work rests, List.append_nil] at happens
  exact ⟨_, _, runsTo_runAt readings, congrArg (·.overflowed) ends, happens⟩

/-- Forgetful code that comes to its end along some readings raises finitely many events along
all. -/
theorem raisesFinitely_of_rests (isForgetful : program.Forgetful) (forgetful : start.Forgetful)
    (rests : (start.runAt program readings).work = []) : program.RaisesFinitely start := by
  rintro chain ⟨before, run⟩ begets
  have grows : ∀ n, ∃ chronicle, program.RunsTo start chronicle (chain n) ∧
      n ≤ (Chronicle.entered chronicle).length := by
    intro n
    induction n with
    | zero => exact ⟨before, run, Nat.zero_le _⟩
    | succ n ih =>
        obtain ⟨chronicle, run, long⟩ := ih
        obtain ⟨_, _, nonempty, later, further, _, isQueue, _⟩ := begets n
        have some := List.length_pos_of_ne_nil (isQueue ▸ nonempty)
        refine ⟨chronicle ++ later, run.trans further, ?_⟩
        rw [entered_append, List.length_append]
        omega
  obtain ⟨chronicle, run, long⟩ :=
    grows ((Chronicle.entered (program.chronicleAt readings start)).length + 1)
  obtain ⟨further, _, _, _, same⟩ := run.exists_rest isForgetful forgetful rests
  have sameEntered := congrArg (fun chronicle => (Chronicle.entered chronicle).length) same
  simp only [entered_undated, entered_append, List.length_append] at sameEntered
  omega

/-- Forgetful code that comes to its end along some readings within the range of the clock never
leaves it. -/
theorem RunsTo.inRange_of_rests {phase : Phase σ Listener}
    (run : program.RunsTo start chronicle last) (situated : program.Situated phase start)
    (isForgetful : program.Forgetful) (forgetful : start.Forgetful)
    (rests : (start.runAt program readings).work = [])
    (inRange : (start.runAt program readings).overflowed = false) : last.overflowed = false := by
  obtain ⟨further, final, onward, same, _⟩ := run.exists_rest isForgetful forgetful rests
  exact run.inRange_of_onward situated onward (same.trans inRange)

end Rest

end Program

end Statechart
