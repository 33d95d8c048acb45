import Statechart.Proofs.Ending
import Statechart.Proofs.Notification

/-!
# The farewell

A machine that has not ended yet is stopped once at most, and that it has been is the last
that its subscribers are told. What the stop publishes is the state that was committed last;
a step that is in progress commits nothing any more.
-/

namespace Statechart

variable {σ Listener : Type}

namespace Chronicle

variable {chronicle later : Chronicle Listener} {initial snapshot : Snapshot}

/-- The state that a machine has come to: the one that its last step has led to, or else the
one that it began in. -/
def latest (initial : Snapshot) (chronicle : Chronicle Listener) : Snapshot :=
  ((commitments chronicle).map (·.snapshot)).getLastD initial

theorem latest_append : latest initial (chronicle ++ later) =
    latest (latest initial chronicle) later := by
  simp only [latest, commitments_append, List.map_append]
  cases (commitments later).map (·.snapshot) using List.reverseRecOn <;> simp

theorem mem_published_append : snapshot ∈ published (chronicle ++ later) ↔
    snapshot ∈ published chronicle ∨ snapshot ∈ published later := by
  simp only [published, commitments_append, farewells_append, List.map_append, List.mem_append]
  tauto

theorem snapshot_of_notices {telling : Telling Listener} {subscribers : List (Nat × Listener)}
    (member : telling ∈ notices subscribers snapshot) : telling.2.2 = snapshot := by
  obtain ⟨_, _, rfl⟩ := List.mem_map.1 member
  rfl

end Chronicle

open Chronicle

theorem Interpreter.Unmoved.shown {definition : Definition} {before after : Interpreter Listener}
    (unmoved : before.Unmoved after) (shown : before.Shown definition) :
    after.Shown definition := by
  refine ⟨?_, ?_⟩
  · rw [unmoved.snapshot, unmoved.configuration, shown.value]
  · rw [unmoved.snapshot, unmoved.context, shown.context]

theorem Execution.Requests.happenings {program : Program σ Listener} {now : Timestamp}
    {execution : Execution σ Listener} {request : Request Listener}
    (requests : execution.Requests request) :
    program.happenings now execution =
      execution.interpreter.requested program.definition request := by
  obtain ⟨asking, rest, resume, isWork, asks⟩ := requests.exists_asks
  cases asks <;> simp [Program.happenings, isWork]

namespace Program

variable {program : Program σ Listener} {now : Timestamp} {phase next : Phase σ Listener}
variable {i after : Interpreter Listener} {happenings chronicle : Chronicle Listener}

/-- As long as a machine is not stopped, its last snapshot is the state it has come to. -/
theorem Move.snapshot (move : program.Move now phase i happenings next after)
    (lasts : after.lifecycle ≠ .stopped) :
    i.lifecycle ≠ .stopped ∧ after.snapshot = latest i.snapshot happenings := by
  cases move with
  | begin unstarted => exact ⟨by simp [unstarted], rfl⟩
  | stop =>
      cases lifecycle : i.lifecycle with
      | done => simp [Interpreter.stop, Interpreter.requested, lifecycle, latest,
          Happening.committed?]
      | notStarted | running | stopped =>
          cases busy : i.busy <;> simp [Interpreter.stop, lifecycle, busy] at lasts
  | publish isPublished =>
      have wasRunning := (Interpreter.published_of_commit isPublished).wasRunning
      refine ⟨by simp [wasRunning], ?_⟩
      simp [latest, Interpreter.commitments_ended isPublished,
        Interpreter.snapshot_commitment isPublished]
  | abandon =>
      refine ⟨?_, rfl⟩
      rintro isStopped
      simp [Interpreter.abandonStart, Interpreter.release, isStopped] at lasts
  | _ => exact ⟨lasts, rfl⟩

/-- No step leads to a machine that is stopped. -/
theorem Move.status_ne_stopped (move : program.Move now phase i happenings next after)
    {commitment : Commitment} (member : commitment ∈ commitments happenings) :
    commitment.snapshot.status ≠ .stopped := by
  rcases move.commits_one with nothing | ⟨step, _, isPublished, isCommitted⟩
  · simp [nothing] at member
  · rw [isCommitted, List.mem_singleton] at member
    rcases (Interpreter.published_of_commit isPublished).outcome with
      ⟨_, _, ⟨isDone, _⟩ | ⟨isRunning, _⟩⟩
    · simp [member, Interpreter.commitment, isDone, Lifecycle.status]
    · simp [member, Interpreter.commitment, isRunning, Lifecycle.status]

/-- What is invariant along any run of a machine that began in a state. -/
structure Voiced (program : Program σ Listener) (initial : Snapshot) (phase : Phase σ Listener)
    (i : Interpreter Listener) (chronicle : Chronicle Listener) : Prop where
  numbered : i.Numbered
  shown : i.Shown program.definition
  latest : i.lifecycle ≠ .stopped → i.snapshot = latest initial chronicle
  unparted : i.lifecycle ≠ .stopped → farewells chronicle = []
  active : ∀ commitment ∈ commitments chronicle, commitment.snapshot.status ≠ .stopped
  told : ∀ telling ∈ tellings chronicle ++ (phase.due ++ i.due),
    telling.2.2 ∈ published chronicle

theorem Move.voiced {initial : Snapshot} (move : program.Move now phase i happenings next after)
    (fits : phase.Fits i) (voiced : Voiced program initial phase i chronicle) :
    Voiced program initial next after (chronicle ++ happenings) where
  numbered := move.numbered voiced.numbered
  shown := move.shown voiced.shown
  latest lasts := by
    obtain ⟨lasted, snapshot⟩ := move.snapshot lasts
    rw [latest_append, ← voiced.latest lasted, snapshot]
  unparted lasts := by
    have lasted := (move.snapshot lasts).1
    have stops := move.stops_once
    rw [if_neg lasts, if_neg lasted, Nat.zero_add, List.length_eq_zero_iff] at stops
    rw [farewells_append, voiced.unparted lasted, stops, List.append_nil]
  active commitment member := by
    rw [commitments_append, List.mem_append] at member
    rcases member with old | new
    · exact voiced.active commitment old
    · exact move.status_ne_stopped new
  told telling member := by
    rw [tellings_append, List.append_assoc, move.due fits voiced.shown, ← List.append_assoc,
      List.mem_append] at member
    rw [mem_published_append]
    rcases member with old | new
    · exact .inl (voiced.told telling old)
    · obtain ⟨snapshot, isPublished, told⟩ := List.mem_flatMap.1 new
      rw [snapshot_of_notices told]
      exact .inr isPublished

section Run

variable {before stopped final : Execution σ Listener} {earlier later : Chronicle Listener}

theorem voiced_ofClient {interpreter : Interpreter Listener} (begins : program.Begins interpreter) :
    Voiced program interpreter.snapshot .outside interpreter [] where
  numbered := begins.numbered
  shown := begins.shown
  latest _ := rfl
  unparted _ := rfl
  active := by simp
  told := by
    obtain ⟨tidy, isIdle⟩ := begins.tidy
    simp [Phase.due, Interpreter.due, (tidy.idle isIdle).2]

theorem Situated.due_eq {execution : Execution σ Listener}
    (situated : program.Situated phase execution) :
    execution.due = phase.due ++ execution.interpreter.due := by
  rw [Execution.due, situated.arranged.due]

/-- Of a machine that is over nothing new is published; what was due is told. -/
theorem RunsTo.due_of_over (run : program.RunsTo before later final)
    (situated : program.Situated phase before) (shown : before.interpreter.Shown program.definition)
    (isOver : before.interpreter.IsOver) :
    published later = [] ∧ tellings later ++ final.due = before.due := by
  induction run with
  | refl => simp [published]
  | @tail chronicle execution after now run step ih =>
      obtain ⟨nothing, due⟩ := ih
      obtain ⟨stillOver, current, next, isCurrent, isNext, move⟩ :=
        run.advance_of_over situated isOver step
      have moveDue := move.due isCurrent.fits ((run.unmoved isOver).2.shown shown)
      have nothingNew := move.published_eq_nil stillOver
      constructor
      · rw [List.eq_nil_iff_forall_not_mem]
        intro snapshot
        simp [mem_published_append, nothing, nothingNew]
      · rw [tellings_append, List.append_assoc, isNext.due_eq, moveDue, nothingNew,
          List.flatMap_nil, List.append_nil, ← isCurrent.due_eq, due]

theorem stopped_of_requests (requests : before.Requests .stop)
    (lasts : before.interpreter.lifecycle = .notStarted ∨ before.interpreter.lifecycle = .running)
    (step : before.step? program now = some stopped) :
    stopped.overflowed = before.overflowed ∧ stopped.interpreter.lifecycle = .stopped := by
  obtain ⟨rest, resume, rfl⟩ := requests.step_eq step
  refine ⟨rfl, (Interpreter.lifecycle_stop _).trans (if_neg ?_)⟩
  rcases lasts with lifecycle | lifecycle <;> simp [lifecycle]

/-- A stop of a machine that has not ended publishes the machine as stopped. This comes to be
due to whoever is subscribed, and nothing else happens. -/
theorem Situated.stops (situated : program.Situated phase before)
    (shown : before.interpreter.Shown program.definition) (requests : before.Requests .stop)
    (lasts : before.interpreter.lifecycle = .notStarted ∨ before.interpreter.lifecycle = .running)
    (step : before.step? program now = some stopped) :
    let last : Snapshot := { before.interpreter.snapshot with status := .stopped }
    farewells (program.happenings now before) = [last] ∧
      commitments (program.happenings now before) = [] ∧
      tellings (program.happenings now before) = [] ∧
      stopped.due = before.due ++ notices before.interpreter.listeners last ∧
      (∃ next : Phase σ Listener, program.Situated next stopped) ∧
      stopped.interpreter.Shown program.definition := by
  intro last
  have farewell : farewells (program.happenings now before) = [last] := by
    rw [requests.happenings, farewells_stop lasts]
    simp [last, shown.value, shown.context]
  have noCommitment : commitments (program.happenings now before) = [] := by
    rw [requests.happenings, commitments_stop]
  have noTelling : tellings (program.happenings now before) = [] := by
    rw [requests.happenings, tellings_stop]
  obtain ⟨sameRange, _⟩ := stopped_of_requests requests lasts step
  obtain ⟨next, isNext, move⟩ := situated.advance step (sameRange.trans situated.inRange)
  refine ⟨farewell, noCommitment, noTelling, ?_, ⟨next, isNext⟩, move.shown shown⟩
  have due := move.due situated.fits shown
  rw [noTelling, List.nil_append, ← isNext.due_eq, ← situated.due_eq] at due
  simpa [published, farewell, noCommitment] using due

/-- How a run goes on from a stop of a machine that has not ended. -/
structure Parts (program : Program σ Listener) (initial : Snapshot) (before : Execution σ Listener)
    (earlier later : Chronicle Listener) (after : Execution σ Listener) : Prop where
  /-- In the whole run the machine is published as stopped once, in the state that it has come
  to, and that is what is committed. -/
  once : (published (earlier ++ later)).filter (·.status = .stopped) =
    [{ latest initial earlier with status := .stopped }]
  committed : (latest initial earlier).value =
      Configuration.value program.definition.toStateTree before.interpreter.configuration ∧
    (latest initial earlier).context = before.interpreter.context
  /-- No step takes effect any more, not even one that is in progress. -/
  discards : commitments later = []
  /-- After everything else whoever was subscribed at the stop is told that the machine is
  stopped, and nobody anything after that. -/
  told : tellings (earlier ++ later) ++ after.due = (tellings earlier ++ before.due) ++
    notices before.interpreter.listeners { latest initial earlier with status := .stopped }
  active : ∀ telling ∈ tellings earlier ++ before.due, telling.2.2.status ≠ .stopped
  distinct : (before.interpreter.listeners.map (·.1)).Nodup
  /-- The run comes to its end, and then everyone has been told. -/
  ends : program.Ends after
  settled : after.work = [] → after.due = []

/-- A machine that has not ended yet can be stopped at any time and by whomever. That is final,
and it is the last that is published. -/
theorem stop_is_told_last {interpreter : Interpreter Listener} {memory : σ}
    {code : Routine σ Listener Unit} (begins : program.Begins interpreter)
    (run : program.RunsTo (.ofClient interpreter memory code) earlier before)
    (requests : before.Requests .stop)
    (lasts : before.interpreter.lifecycle = .notStarted ∨ before.interpreter.lifecycle = .running)
    (step : before.step? program now = some stopped)
    (onward : program.RunsTo stopped later final) :
    program.Parts interpreter.snapshot before earlier (program.happenings now before ++ later)
      final := by
  have start : program.Situated .outside (.ofClient interpreter memory code) :=
    situated_ofClient begins
  obtain ⟨_, isSituated⟩ := run.situated_before start step
  obtain ⟨phase, situated, voiced⟩ := run.induct (Voiced program interpreter.snapshot)
    isSituated.inRange start (voiced_ofClient begins)
    fun settled move voiced => move.voiced settled.fits voiced
  have notStopped : before.interpreter.lifecycle ≠ .stopped := by
    rcases lasts with lifecycle | lifecycle <;> simp [lifecycle]
  have snapshot := voiced.latest notStopped
  obtain ⟨farewell, noCommitment, noTelling, becomesDue, ⟨next, isNext⟩, stillShown⟩ :=
    situated.stops voiced.shown requests lasts step
  obtain ⟨_, isStopped⟩ := stopped_of_requests requests lasts step
  obtain ⟨nothing, due⟩ := onward.due_of_over isNext stillShown (.inr isStopped)
  obtain ⟨noneCommitted, noFarewell⟩ : commitments later = [] ∧ farewells later = [] := by
    simpa [published] using nothing
  have stillOver := (onward.unmoved (.inr isStopped)).2.isOver (.inr isStopped)
  have reachable : program.Reachable final :=
    ⟨_, _, _, begins, (run.steps.tail ⟨now, step⟩).trans onward.steps⟩
  have active : ∀ snapshot ∈ published earlier, snapshot.status ≠ .stopped := by
    simpa [published, voiced.unparted notStopped] using voiced.active
  constructor
  case once =>
    have before : (published earlier).filter (·.status = .stopped) = [] := by
      simpa [List.filter_eq_nil_iff] using active
    simpa [published, noCommitment, farewell, noneCommitted, noFarewell, List.filter_append,
      snapshot, voiced.unparted notStopped] using before
  case committed => exact ⟨snapshot ▸ voiced.shown.value, snapshot ▸ voiced.shown.context⟩
  case discards => simp [noCommitment, noneCommitted]
  case told =>
    rw [tellings_append, tellings_append, noTelling, List.nil_append, List.append_assoc, due,
      becomesDue, snapshot, List.append_assoc]
  case active =>
    rw [situated.due_eq]
    exact fun telling member => active _ (voiced.told telling member)
  case distinct => exact voiced.numbered.distinct
  case ends => exact reachable.orderly.ends stillOver
  case settled =>
    obtain ⟨_, isFinal⟩ := onward.situated_of_over isNext (.inr isStopped)
    exact isFinal.due_eq_nil

end Run

/-- Two subscribe to the booth, the first of whom stops it when it is told of the start. -/
def crowded : Execution Unit Bool :=
  .ofClient (.fresh MachineSpec.booth.resolved none) () do
    let _ ← Routine.request (.subscribe true)
    let _ ← Routine.request (.subscribe false)
    let _ ← Routine.request .start

/-- The second is told of the start still, and then both are that the booth is stopped. -/
theorem crowded_booth_parts :
    (booth []).Parts (.fresh MachineSpec.booth.resolved none : Interpreter Bool).snapshot
        (crowded.run (booth []) default 7) ((booth []).chronicle default 7 crowded)
        ((booth []).chronicle default 13 (crowded.run (booth []) default 7))
        ((crowded.run (booth []) default 7).run (booth []) default 13) ∧
      (crowded.run (booth []) default 7).due.map (fun telling => (telling.1, telling.2.2.status)) =
        [(2, .active)] := by
  have requests : (crowded.run (booth []) default 7).Requests .stop := by
    rw [Execution.Requests]
    cbv
  have isRunning : (crowded.run (booth []) default 7).interpreter.lifecycle = .running := by cbv
  have goesOn : ((crowded.run (booth []) default 7).step? (booth []) default).isSome = true := by
    cbv
  have run : (booth []).RunsTo crowded _ _ := runsTo_run default 7 crowded
  refine ⟨?_, by cbv⟩
  generalize crowded.run (booth []) default 7 = before,
    (booth []).chronicle default 7 crowded = earlier at *
  obtain ⟨stopped, step⟩ := Option.isSome_iff_exists.1 goesOn
  rw [Program.chronicle, Execution.run, step]
  exact stop_is_told_last (begins_booth []) run requests (.inr isRunning) step
    (runsTo_run default 12 stopped)

end Program

end Statechart
