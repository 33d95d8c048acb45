import Statechart.Proofs.Tellings

/-!
# Notification

A listener that is there when the machine starts, and stays, is told every step that takes
effect, once and in that order, and last that the machine was stopped. What it has not been
told yet is owed to it: by the notification in progress, and by a stop that was put off.
-/

namespace Statechart

variable {σ Listener : Type}

/-- What the subscriber of a number is to be told when a list of subscribers is notified. -/
def dueTo (number : Nat) (subscribers : List (Nat × Listener)) (snapshot : Snapshot) :
    List (Listener × Snapshot) :=
  (subscribers.filter (·.1 = number)).map fun subscriber => (subscriber.2, snapshot)

def Work.owed (number : Nat) : Work σ Listener → List (Listener × Snapshot)
  | .notifying subscribers snapshot => dueTo number subscribers snapshot
  | _ => []

/-- What a stop that was put off owes. -/
def Interpreter.owed (interpreter : Interpreter Listener) (number : Nat) :
    List (Listener × Snapshot) :=
  match interpreter.pendingStop with
  | some (subscribers, snapshot) => dueTo number subscribers snapshot
  | none => []

/-- What the subscriber of a number is still to be told of what has happened. -/
def Execution.owed (execution : Execution σ Listener) (number : Nat) : List (Listener × Snapshot) :=
  execution.work.flatMap (Work.owed number) ++ execution.interpreter.owed number

def Phase.owed (number : Nat) : Phase σ Listener → List (Listener × Snapshot)
  | .news subscribers snapshot | .farewell subscribers snapshot =>
    dueTo number subscribers snapshot
  | .outside | .step _ | .pass => []

/-- What the subscriber of a number hears where something is told. -/
def hearing (number : Nat) (telling : Telling Listener) : Option (Listener × Snapshot) :=
  if telling.1 = number then some telling.2 else none

theorem dueTo_eq (number : Nat) (subscribers : List (Nat × Listener)) (snapshot : Snapshot) :
    dueTo number subscribers snapshot =
      (notices subscribers snapshot).filterMap (hearing number) := by
  induction subscribers with
  | nil => rfl
  | cons subscriber subscribers ih =>
      simp only [dueTo] at ih
      by_cases isNumber : subscriber.1 = number <;>
        simp [dueTo, hearing, isNumber, ih]

theorem Chronicle.heard_eq (number : Nat) (chronicle : Chronicle Listener) :
    heard chronicle number = (tellings chronicle).filterMap (hearing number) := by
  simp only [heard, tellings, List.filterMap_filterMap]
  congr
  funext happening
  cases happening with
  | told other listener snapshot => rfl
  | _ => rfl

theorem Work.owed_eq (number : Nat) (work : Work σ Listener) :
    work.owed number = work.due.filterMap (hearing number) := by
  cases work with
  | notifying subscribers snapshot => exact dueTo_eq number subscribers snapshot
  | _ => rfl

theorem Interpreter.owed_eq (number : Nat) (i : Interpreter Listener) :
    i.owed number = i.due.filterMap (hearing number) := by
  cases putOff : i.pendingStop with
  | none => simp [Interpreter.owed, Interpreter.due, putOff]
  | some pair => simpa [Interpreter.owed, Interpreter.due, putOff] using dueTo_eq number _ _

theorem Phase.owed_eq (number : Nat) (phase : Phase σ Listener) :
    phase.owed number = phase.due.filterMap (hearing number) := by
  cases phase with
  | news subscribers snapshot | farewell subscribers snapshot =>
      exact dueTo_eq number subscribers snapshot
  | _ => rfl

theorem Execution.owed_eq (number : Nat) (execution : Execution σ Listener) :
    execution.owed number = execution.due.filterMap (hearing number) := by
  simp only [Execution.owed, Execution.due, List.filterMap_append, List.filterMap_flatMap,
    Interpreter.owed_eq, ← Work.owed_eq]

/-- The work of a phase owes what the phase owes. -/
theorem Phase.Arranged.owed {phase : Phase σ Listener} {work : List (Work σ Listener)}
    (arranged : phase.Arranged work) (number : Nat) :
    work.flatMap (Work.owed number) = phase.owed number := by
  rw [Phase.owed_eq, ← arranged.due, List.filterMap_flatMap]
  simp only [← Work.owed_eq]

namespace Interpreter

/-- Every subscription has a number of its own. -/
structure Numbered (interpreter : Interpreter Listener) : Prop where
  distinct : (interpreter.listeners.map (·.1)).Nodup
  issued : ∀ subscriber ∈ interpreter.listeners, subscriber.1 ≤ interpreter.subscriptions

theorem filter_number {subscribers : List (Nat × Listener)} {number : Nat} {listener : Listener}
    (distinct : (subscribers.map (·.1)).Nodup) (member : (number, listener) ∈ subscribers) :
    subscribers.filter (·.1 = number) = [(number, listener)] := by
  induction subscribers with
  | nil => cases member
  | cons head rest ih =>
      simp only [List.map_cons, List.nodup_cons, List.mem_map, not_exists, not_and] at distinct
      obtain ⟨notLater, distinct⟩ := distinct
      rcases List.mem_cons.1 member with rfl | later
      · have others : rest.filter (·.1 = number) = [] := by
          rw [List.filter_eq_nil_iff]
          intro other isLater
          simpa using notLater other isLater
        simp [others]
      · have another : head.1 ≠ number := fun same => notLater _ later same.symm
        simp [another, ih distinct later]

/-- A listener is subscribed under a number, as long as the machine has not ended. -/
structure Serves (number : Nat) (listener : Listener) (interpreter : Interpreter Listener) :
    Prop where
  issued : number ≤ interpreter.subscriptions
  listed : interpreter.lifecycle = .notStarted ∨ interpreter.lifecycle = .running →
    interpreter.listeners.filter (·.1 = number) = [(number, listener)]

theorem Serves.dueTo {number : Nat} {listener : Listener} {i : Interpreter Listener}
    (serves : i.Serves number listener)
    (lasts : i.lifecycle = .notStarted ∨ i.lifecycle = .running) (snapshot : Snapshot) :
    dueTo number i.listeners snapshot = [(listener, snapshot)] := by
  simp [Statechart.dueTo, serves.listed lasts]

end Interpreter

namespace Program

open Chronicle

variable {program : Program σ Listener} {now : Timestamp} {phase next : Phase σ Listener}
variable {i after : Interpreter Listener} {happenings chronicle : Chronicle Listener}

theorem Move.numbered (move : program.Move now phase i happenings next after)
    (numbered : i.Numbered) : after.Numbered := by
  cases move with
  | stop =>
      cases lifecycle : i.lifecycle with
      | stopped => simpa [Interpreter.stop, lifecycle] using numbered
      | notStarted | running | done =>
          cases busy : i.busy <;>
            exact ⟨by simp [Interpreter.stop, lifecycle, busy],
              by simp [Interpreter.stop, lifecycle, busy]⟩
  | subscribe _ _ listener =>
      have fresh : ∀ subscriber ∈ i.listeners, subscriber.1 ≠ i.subscriptions + 1 := by
        intro subscriber member
        have old := numbered.issued subscriber member
        omega
      by_cases stopped : i.lifecycle = .stopped
      · refine ⟨by simpa [Interpreter.subscribe, stopped] using numbered.distinct, ?_⟩
        have issued : ∀ number listener, (number, listener) ∈ i.listeners →
            number ≤ i.subscriptions + 1 := fun number listener member =>
          Nat.le_succ_of_le (numbered.issued (number, listener) member)
        simpa [Interpreter.subscribe, stopped] using issued
      · refine ⟨?_, ?_⟩
        · simp only [Interpreter.subscribe, stopped, if_false, List.map_append, List.map_cons,
            List.map_nil]
          refine List.nodup_append.2 ⟨numbered.distinct, by simp, ?_⟩
          simpa using fresh
        · intro subscriber member
          simp only [Interpreter.subscribe, stopped, if_false, List.mem_append,
            List.mem_singleton] at member
          rcases member with old | rfl
          · exact Nat.le_succ_of_le (numbered.issued subscriber old)
          · exact Nat.le_refl _
  | unsubscribe _ _ number =>
      refine ⟨?_, fun subscriber member => ?_⟩
      · exact (List.filter_sublist.map _).nodup numbered.distinct
      · exact numbered.issued subscriber (List.mem_filter.1 member).1
  | publish isPublished =>
      have published := Interpreter.published_of_commit isPublished
      exact ⟨by simpa [published.listeners] using numbered.distinct,
        by simpa [published.listeners, published.subscriptions] using numbered.issued⟩
  | _ => exact ⟨numbered.distinct, numbered.issued⟩

theorem Move.serves {number : Nat} {listener : Listener}
    (move : program.Move now phase i happenings next after)
    (stays : .unsubscribed number ∉ happenings) (serves : i.Serves number listener) :
    after.Serves number listener := by
  cases move with
  | begin unstarted => exact ⟨serves.issued, fun _ => serves.listed (.inl unstarted)⟩
  | stop =>
      cases lifecycle : i.lifecycle with
      | stopped => simpa [Interpreter.stop, lifecycle] using serves
      | notStarted | running | done =>
          cases busy : i.busy <;>
            exact ⟨by simpa [Interpreter.stop, lifecycle, busy] using serves.issued,
              by simp [Interpreter.stop, lifecycle, busy]⟩
  | subscribe _ _ other =>
      refine ⟨Nat.le_succ_of_le serves.issued, fun lasts => ?_⟩
      have notStopped : i.lifecycle ≠ .stopped := by
        rintro stopped
        simp [Interpreter.subscribe, stopped] at lasts
      have another : i.subscriptions + 1 ≠ number := by
        have issued := serves.issued
        omega
      simp [Interpreter.subscribe, notStopped, serves.listed lasts, another]
  | unsubscribe _ _ other =>
      refine ⟨serves.issued, fun lasts => ?_⟩
      have another : number ≠ other := by
        rintro rfl
        simp at stays
      have same : (i.listeners.filter (·.1 ≠ other)).filter (·.1 = number) =
          i.listeners.filter (·.1 = number) := by
        rw [List.filter_filter]
        apply List.filter_congr
        intro subscriber _
        by_cases isNumber : subscriber.1 = number
        · simp [isNumber, another]
        · simp [isNumber]
      exact same.trans (serves.listed lasts)
  | publish isPublished =>
      have published := Interpreter.published_of_commit isPublished
      refine ⟨published.subscriptions ▸ serves.issued, fun _ => ?_⟩
      rw [published.listeners]
      exact serves.listed (.inr published.wasRunning)
  | abandon =>
      refine ⟨serves.issued, fun lasts => serves.listed ?_⟩
      cases lifecycle : i.lifecycle <;>
        simp [Interpreter.abandonStart, Interpreter.release, lifecycle] at lasts ⊢
  | _ => exact ⟨serves.issued, serves.listed⟩

/-- A move tells what was owed, or what it publishes comes to be owed. -/
theorem Move.owed {number : Nat} {listener : Listener}
    (move : program.Move now phase i happenings next after) (fits : phase.Fits i)
    (shown : i.Shown program.definition) (serves : i.Serves number listener) :
    heard happenings number ++ (next.owed number ++ after.owed number) =
      (phase.owed number ++ i.owed number) ++ (published happenings).map (listener, ·) := by
  have due := congrArg (List.filterMap (hearing number)) (move.due fits shown)
  simp only [List.filterMap_append, List.filterMap_flatMap, ← dueTo_eq, ← heard_eq,
    ← Phase.owed_eq, ← Interpreter.owed_eq] at due
  rw [due]
  cases lifecycle : i.lifecycle with
  | notStarted => simp [serves.dueTo (.inl lifecycle), List.map_eq_flatMap]
  | running => simp [serves.dueTo (.inr lifecycle), List.map_eq_flatMap]
  | done => simp [move.published_eq_nil (.inl lifecycle)]
  | stopped => simp [move.published_eq_nil (.inr lifecycle)]

/-- Only a machine that runs commits steps. -/
theorem Move.commitments_eq_nil (move : program.Move now phase i happenings next after)
    (halted : i.lifecycle ≠ .running) : commitments happenings = [] := by
  rcases move.commits_one with nothing | ⟨step, _, isPublished, _⟩
  · exact nothing
  · exact absurd (Interpreter.published_of_commit isPublished).wasRunning halted

/-- A machine is stopped once at most. -/
theorem Move.stops_once (move : program.Move now phase i happenings next after) :
    (if i.lifecycle = .stopped then 1 else 0) + (farewells happenings).length =
      if after.lifecycle = .stopped then 1 else 0 := by
  cases move with
  | begin unstarted => simp [unstarted]
  | stop =>
      cases lifecycle : i.lifecycle <;> cases busy : i.busy <;>
        simp [Interpreter.requested, Interpreter.stop, lifecycle, busy, Happening.stopped?]
  | publish isPublished =>
      have published := Interpreter.published_of_commit isPublished
      rcases published.outcome with ⟨_, _, ⟨isDone, _⟩ | ⟨isRunning, _⟩⟩
      · simp [published.wasRunning, isDone, Interpreter.farewells_ended isPublished]
      · simp [published.wasRunning, isRunning, Interpreter.farewells_ended isPublished]
  | abandon =>
      cases lifecycle : i.lifecycle <;>
        simp [Interpreter.abandonStart, Interpreter.release, lifecycle, Happening.stopped?]
  | _ => rfl

/-- The history takes the records of the steps that are committed. -/
theorem Move.history (move : program.Move now phase i happenings next after) :
    after.history = i.history.pushAll ((commitments happenings).filterMap (·.record)) := by
  cases move with
  | stop =>
      cases lifecycle : i.lifecycle <;> cases busy : i.busy <;>
        simp [Interpreter.requested, Interpreter.stop, lifecycle, busy, Happening.committed?,
          History.pushAll]
  | @publish _ _ step isPublished =>
      have published := Interpreter.published_of_commit isPublished
      rw [Interpreter.commitments_ended isPublished, published.history]
      cases recorded : step.result.recorded <;>
        simp [Interpreter.commitment, recorded, History.pushAll, published.snapshot]
  | _ => simp [Happening.committed?, History.pushAll, Interpreter.enqueue, Interpreter.subscribe,
      Interpreter.unsubscribe, Interpreter.release, Interpreter.abandonStart]

/-- The steps committed since a machine was not started: its initial entry, which is in no
history, and then the steps of signals, which are. -/
structure Opening (phase : Phase σ Listener) (i : Interpreter Listener)
    (chronicle : Chronicle Listener) : Prop where
  unstarted : phase.isStarting = true ∨ i.lifecycle = .notStarted → commitments chronicle = []
  started : commitments chronicle = [] →
    (phase.isStarting = true ∧ i.lifecycle = .running) ∨ i.lifecycle = .notStarted ∨
      i.lifecycle = .stopped
  recorded : ∀ first later, commitments chronicle = first :: later →
    first.record = none ∧
      ∀ commitment ∈ later, ∃ record, commitment.record = some record ∧
        record.target = commitment.snapshot.value

theorem Opening.running (opening : Opening phase i chronicle) (isRunning : i.lifecycle = .running)
    (notStarting : phase.isStarting = false) : commitments chronicle ≠ [] := by
  intro nothing
  rcases opening.started nothing with ⟨isStarting, _⟩ | other | other
  · cases notStarting.symm.trans isStarting
  · cases isRunning.symm.trans other
  · cases isRunning.symm.trans other

/-- A machine that has committed nothing runs only while it is started. -/
theorem Move.started (move : program.Move now phase i happenings next after)
    (opening : Opening phase i chronicle)
    (nothing : commitments (chronicle ++ happenings) = []) :
    (next.isStarting = true ∧ after.lifecycle = .running) ∨ after.lifecycle = .notStarted ∨
      after.lifecycle = .stopped := by
  have nothingYet : commitments chronicle = [] := by
    rw [commitments_append] at nothing
    exact (List.append_eq_nil_iff.1 nothing).1
  have started := opening.started nothingYet
  cases move with
  | act _ sameOrigin => simpa [Phase.isStarting, sameOrigin] using started
  | begin => exact .inl ⟨rfl, rfl⟩
  | stop =>
      cases lifecycle : i.lifecycle with
      | done => simp [lifecycle] at started
      | notStarted | running | stopped =>
          cases busy : i.busy <;> simp [Interpreter.stop, lifecycle, busy]
  | take _ isRunning =>
      have running : i.lifecycle = .running := by simpa [Interpreter.isRunning] using isRunning
      exact absurd nothingYet (opening.running running rfl)
  | release => exact .inr (started.resolve_left fun other => Bool.false_ne_true other.1)
  | discard isDiscarded =>
      have halted := Interpreter.halted_of_discarded isDiscarded
      exact .inr (started.resolve_left fun other => halted other.2)
  | publish isPublished => simp [Interpreter.commitments_ended isPublished] at nothing
  | abandon =>
      rcases started with ⟨_, other⟩ | other | other <;>
        simp [Interpreter.abandonStart, Interpreter.release, other]
  | fail isSignal => simpa [Phase.isStarting, isSignal, Origin.isRecorded] using started
  | _ => exact started

theorem Move.opening (move : program.Move now phase i happenings next after)
    (opening : Opening phase i chronicle) : Opening next after (chronicle ++ happenings) where
  unstarted unstarted := by
    obtain ⟨before, nothing⟩ := move.unstarted unstarted
    simp [opening.unstarted before, nothing]
  started := move.started opening
  recorded := by
    rcases move.commits_one with nothing | ⟨step, rfl, isPublished, isCommitted⟩
    · simpa [nothing] using opening.recorded
    · have running := (Interpreter.published_of_commit isPublished).wasRunning
      rw [commitments_append, isCommitted]
      cases recorded : step.origin.isRecorded with
      | false =>
          -- the initial entry comes first
          have nothingYet := opening.unstarted (.inl (by simp [Phase.isStarting, recorded]))
          rintro first later split
          obtain ⟨rfl, rfl⟩ : _ = first ∧ [] = later := by simpa [nothingYet] using split
          exact ⟨by simp [Interpreter.commitment, RunningStep.result, recorded], by simp⟩
      | true =>
          -- the step of a signal comes after it
          have some := opening.running running (by simp [Phase.isStarting, recorded])
          obtain ⟨first, later, earlier⟩ := List.exists_cons_of_ne_nil some
          rintro other rest split
          obtain ⟨rfl, rfl⟩ : first = other ∧ later ++ _ = rest := by simpa [earlier] using split
          obtain ⟨isInitial, areRecorded⟩ := opening.recorded first later earlier
          refine ⟨isInitial, fun commitment member => ?_⟩
          rcases List.mem_append.1 member with old | new
          · exact areRecorded commitment old
          · obtain rfl := List.mem_singleton.1 new
            exact ⟨_, by simp [Interpreter.commitment, RunningStep.result, recorded]; rfl, rfl⟩

/-- What is invariant while a listener is subscribed under a number. -/
structure Attended (program : Program σ Listener) (number : Nat) (listener : Listener)
    (history : History) (phase : Phase σ Listener) (i : Interpreter Listener)
    (chronicle : Chronicle Listener) : Prop where
  shown : i.Shown program.definition
  serves : i.Serves number listener
  opening : Opening phase i chronicle
  stops : (farewells chronicle).length = if i.lifecycle = .stopped then 1 else 0
  history : i.history = history.pushAll ((commitments chronicle).filterMap (·.record))
  account : heard chronicle number ++ (phase.owed number ++ i.owed number) =
    ((commitments chronicle).map (·.snapshot) ++ farewells chronicle).map (listener, ·)

theorem Move.attended {number : Nat} {listener : Listener} {history : History}
    (move : program.Move now phase i happenings next after) (fits : phase.Fits i)
    (stays : .unsubscribed number ∉ happenings)
    (attended : Attended program number listener history phase i chronicle) :
    Attended program number listener history next after (chronicle ++ happenings) where
  shown := move.shown attended.shown
  serves := move.serves stays attended.serves
  opening := move.opening attended.opening
  stops := by
    rw [farewells_append, List.length_append, attended.stops]
    exact move.stops_once
  history := by
    rw [move.history, attended.history]
    simp [History.pushAll]
  account := by
    -- a farewell is the last that happens: no step is committed after it
    have last : farewells chronicle = [] ∨ commitments happenings = [] := by
      by_cases stopped : i.lifecycle = .stopped
      · exact .inr (move.commitments_eq_nil (by simp [stopped]))
      · exact .inl (List.length_eq_zero_iff.1 (by simp [attended.stops, stopped]))
    have owed := move.owed fits attended.shown attended.serves
    rw [heard_append, List.append_assoc, owed, ← List.append_assoc, attended.account]
    rcases last with nothing | nothing <;> simp [published, nothing]

theorem Begins.numbered (begins : program.Begins i) : i.Numbered := by
  obtain ⟨_, _, _, _, rfl⟩ := begins.exists_assemble
  exact ⟨List.nodup_nil, by simp [Interpreter.assemble]⟩

/-- Where a run has come to, every subscription has a number of its own and the last snapshot
shows what was committed last; or the run has ended outside of the range of the clock. -/
theorem Reachable.introduced {execution : Execution σ Listener}
    (reachable : program.Reachable execution) :
    (execution.overflowed = true ∧ execution.work = []) ∨
      ∃ phase : Phase σ Listener, program.Situated phase execution ∧
        execution.interpreter.Numbered ∧ execution.interpreter.Shown program.definition := by
  obtain ⟨interpreter, memory, code, begins, steps⟩ := reachable
  obtain ⟨chronicle, run⟩ := exists_runsTo steps
  have situated : program.Situated .outside (.ofClient interpreter memory code) :=
    situated_ofClient begins
  rcases run.situated situated with ⟨inRange, _⟩ | overflowed
  · right
    exact run.induct (fun _ i _ => i.Numbered ∧ i.Shown program.definition) inRange situated
      ⟨begins.numbered, begins.shown⟩
      fun _ move holds => ⟨move.numbered holds.1, move.shown holds.2⟩
  · exact .inl overflowed

section Attended

variable {start execution : Execution σ Listener} {number : Nat} {listener : Listener}

/-- Before the start nothing has happened that a listener could have missed. -/
theorem attended_of_unstarted (situated : program.Situated phase start)
    (numbered : start.interpreter.Numbered) (shown : start.interpreter.Shown program.definition)
    (unstarted : start.interpreter.lifecycle = .notStarted)
    (subscribed : (number, listener) ∈ start.interpreter.listeners) :
    Attended program number listener start.interpreter.history phase start.interpreter [] := by
  have tidy := situated.settled.tidy
  have isIdle := (tidy.unstarted unstarted).1
  obtain rfl := situated.fits.eq_outside isIdle (by simp [unstarted])
  exact {
    shown
    serves := ⟨numbered.issued _ subscribed, fun _ =>
      Interpreter.filter_number numbered.distinct subscribed⟩
    opening := ⟨fun _ => rfl, fun _ => .inr (.inl unstarted), fun _ _ split => by cases split⟩
    stops := by simp [unstarted]
    history := rfl
    account := by simp [Phase.owed, Interpreter.owed, (tidy.idle isIdle).2] }

theorem RunsTo.attended {history : History} (run : program.RunsTo start chronicle execution)
    (inRange : execution.overflowed = false) (situated : program.Situated phase start)
    (initially : Attended program number listener history phase start.interpreter [])
    (stays : .unsubscribed number ∉ chronicle) :
    ∃ current : Phase σ Listener, program.Situated current execution ∧
      Attended program number listener history current execution.interpreter chronicle := by
  obtain ⟨current, isCurrent, attended⟩ := run.induct
    (fun phase i chronicle => .unsubscribed number ∉ chronicle →
      Attended program number listener history phase i chronicle)
    inRange situated (fun _ => initially) fun settled move attended stays => by
      rw [List.mem_append, not_or] at stays
      exact move.attended settled.fits stays.2 (attended stays.1)
  exact ⟨current, isCurrent, attended stays⟩

/-- Without work nothing is owed. -/
theorem Situated.owed_eq_nil (situated : program.Situated phase execution)
    (noWork : execution.work = []) : execution.owed number = [] := by
  rw [Execution.owed_eq, situated.due_eq_nil noWork]
  rfl

end Attended

/-- A listener that is subscribed when the machine is started, and stays, has been told the
snapshots of all steps that have taken effect, in that order, and last that the machine was
stopped; what is missing is owed, and nothing is owed when no work is left. A machine is
stopped once at most. The first step is the initial entry; those after it are in the
history, with the values that were told. What is told in a small step is what it runs the routines
of listeners with. -/
theorem told_every_commit {start execution : Execution σ Listener} {number : Nat}
    {listener : Listener} (reachable : program.Reachable start)
    (unstarted : start.interpreter.lifecycle = .notStarted)
    (subscribed : (number, listener) ∈ start.interpreter.listeners)
    (run : program.RunsTo start chronicle execution) (stays : .unsubscribed number ∉ chronicle) :
    let published :=
      ((commitments chronicle).map (·.snapshot) ++ farewells chronicle).map (listener, ·)
    heard chronicle number <+: published ∧
      (execution.overflowed = false →
        heard chronicle number ++ execution.owed number = published ∧
        (execution.work = [] → execution.owed number = [])) ∧
      (farewells chronicle).length =
        (if execution.interpreter.lifecycle = .stopped then 1 else 0) ∧
      execution.interpreter.history =
        start.interpreter.history.pushAll ((commitments chronicle).filterMap (·.record)) ∧
      (∀ first later, commitments chronicle = first :: later →
        first.record = none ∧
          ∀ commitment ∈ later, ∃ record, commitment.record = some record ∧
            record.target = commitment.snapshot.value) ∧
      ∀ now before after, Relation.ReflTransGen program.Step start before →
        before.step? program now = some after →
        program.Tells now before after (tellings (program.happenings now before)) := by
  intro published
  have tells : ∀ now before after, Relation.ReflTransGen program.Step start before →
      before.step? program now = some after →
      program.Tells now before after (tellings (program.happenings now before)) :=
    fun _ _ _ _ steps => tells_of_step steps
  rcases reachable.introduced with ⟨overflowed, noWork⟩ | ⟨phase, situated, numbered, shown⟩
  · obtain ⟨rfl, rfl⟩ := run.eq_of_no_work noWork
    exact ⟨by simp [published], by simp [overflowed], by simp [unstarted],
      by simp [History.pushAll], by simp, tells⟩
  · have initially := attended_of_unstarted situated numbered shown unstarted subscribed
    obtain ⟨last, timers, before, lastInRange, same⟩ := run.exists_inRange situated
    obtain ⟨_, _, attended⟩ := before.attended lastInRange situated initially stays
    rw [same]
    refine ⟨⟨_, attended.account⟩, fun inRange => ?_, attended.stops, attended.history,
      attended.opening.recorded, tells⟩
    obtain ⟨current, isCurrent, attended⟩ := run.attended inRange situated initially stays
    refine ⟨?_, isCurrent.owed_eq_nil⟩
    rw [Execution.owed, isCurrent.arranged.owed]
    exact attended.account

/-- Whether a subscriber leaves. -/
def isLeaving : Happening Listener → Bool
  | .unsubscribed _ => true
  | _ => false

/-- Someone subscribes, starts the hall, comes in and closes it. -/
def closing : Execution Unit Unit :=
  .ofClient (.fresh MachineSpec.hall.resolved none) () do
    let _ ← Routine.request (.subscribe ())
    let _ ← Routine.request .start
    let _ ← Routine.request (.send "motion")
    Routine.request .stop

/-- From its subscription on the listener hears of the start and of the one step, and then
that the hall is closed; to hear of the start, its routine is run with what was committed. -/
theorem hall_tells_every_commit :
    (heard (hall.chronicle default 30 (closing.run hall default 1)) 1).map (·.2.status) =
        [.active, .active, .stopped] ∧
      ∃ after snapshot rest,
        ((closing.run hall default 1).run hall default 2).step? hall default = some after ∧
        after.work = .listening (hall.listen () snapshot) :: rest ∧
        snapshot.status = .active := by
  have start : hall.RunsTo closing _ (closing.run hall default 1) := runsTo_run default 1 closing
  have run : hall.RunsTo _ _ _ := runsTo_run default 30 (closing.run hall default 1)
  have begins : ((closing.run hall default 1).interpreter.lifecycle,
      (closing.run hall default 1).interpreter.listeners) = (.notStarted, [(1, ())]) := by cbv
  have happens : ((hall.chronicle default 30 (closing.run hall default 1)).all
        (fun happening => !isLeaving happening),
      (commitments (hall.chronicle default 30 (closing.run hall default 1))).map
        (·.snapshot.status),
      (farewells (hall.chronicle default 30 (closing.run hall default 1))).map (·.status)) =
      (true, [.active, .active], [.stopped]) := by cbv
  have ends : (((closing.run hall default 1).run hall default 30).work.isEmpty,
      ((closing.run hall default 1).run hall default 30).overflowed) = (true, false) := by cbv
  obtain ⟨unstarted, listed⟩ := Prod.mk.inj begins
  obtain ⟨noneLeaves, last⟩ := Prod.mk.inj happens
  obtain ⟨committed, stopped⟩ := Prod.mk.inj last
  obtain ⟨noWork, inRange⟩ := Prod.mk.inj ends
  have stays : .unsubscribed 1 ∉ hall.chronicle default 30 (closing.run hall default 1) := by
    intro member
    simpa [isLeaving] using List.all_eq_true.1 noneLeaves _ member
  obtain ⟨_, account, _, _, _, tells⟩ := told_every_commit ⟨_, _, _, begins_hall, start.steps⟩
    unstarted (by rw [listed]; exact .head _) run stays
  constructor
  · obtain ⟨owed, nothingOwed⟩ := account inRange
    rw [nothingOwed (List.isEmpty_iff.1 noWork), List.append_nil] at owed
    simp [owed, Function.comp_def, committed, stopped]
  · have isTold : (tellings (hall.happenings default
        ((closing.run hall default 1).run hall default 2))).map (·.2.2.status) = [.active] := by cbv
    have goesOn :
        (((closing.run hall default 1).run hall default 2).step? hall default).isSome = true := by
      cbv
    obtain ⟨after, steps⟩ := Option.isSome_iff_exists.1 goesOn
    have told := tells _ _ _ (runsTo_run default 2 _).steps steps
    generalize tellings (hall.happenings default _) = list at told isTold
    cases told with
    | told _ calls => exact ⟨after, _, _, steps, calls, by simpa using isTold⟩
    | nobody => cases isTold

end Program

end Statechart
