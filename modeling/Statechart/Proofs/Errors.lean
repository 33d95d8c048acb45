import Statechart.Proofs.ClockSlices
import Statechart.Proofs.Ending
import Statechart.Proofs.Resumption
import Statechart.Proofs.Tellings

/-!
# What an error says

An event that is sent, and the start, are answered once the whole pass over the queue is over:
with the first failure in it, be it of the step that the request takes itself or of one that
follows it. So an error does not say that nothing has happened. Nothing has if it is the
request's own step that failed; else that step has taken effect.
-/

namespace Statechart

variable {σ Listener : Type}

/-- A machine that is processing the only signal that it has. -/
def Interpreter.occupied (interpreter : Interpreter Listener) : Interpreter Listener :=
  { interpreter with busy := true, queue := [] }

namespace Program

open Chronicle

/-- The result of a step whose actions make no requests, or the failure of one of them, and the
memory that they leave. -/
def result? (program : Program σ Listener) (event : String) (recorded : Bool) (plan : Plan)
    (context : Context) (memory : σ) : Option (Except InterpreterError StepResult × σ) :=
  (program.perform? event plan.invocations context [] memory).map fun (outcome, memory) =>
    (outcome.map fun (context, raised) => ⟨event, none, recorded, plan, context, raised⟩, memory)

/-- What the step comes to that a request takes itself. -/
def own? (program : Program σ Listener) (s : Standing σ Listener) :
    Request Listener → Option (Except InterpreterError StepResult × σ)
  | .send event =>
    match program.definition.select program.registry.guard? s.1.configuration s.1.context event with
    | [] => none
    | transitions =>
      program.result? event true (program.definition.plan s.1.configuration transitions)
        s.1.context s.2
  | .start =>
    program.result? initEvent false program.definition.initialPlan program.definition.context s.2
  | .stop | .advance _ | .subscribe _ | .unsubscribe _ | .can _ | .look => none

section Carries

variable {ι : Type} {program : Program σ Listener} {s t u : Standing σ Listener}
variable {work next last : ι → List (Work σ Listener)} {chronicle later : Chronicle Listener}

/-- Some work leads to other work in as many small steps, at whatever readings of the clock. -/
def Carries (program : Program σ Listener) (before : Standing σ Listener)
    (work : ι → List (Work σ Listener)) (chronicle : Chronicle Listener)
    (after : Standing σ Listener) (later : ι → List (Work σ Listener)) : Prop :=
  ∃ count, ∀ readings : List Timestamp, readings.length = count →
    program.Brings readings before work chronicle after later

theorem Carries.refl (program : Program σ Listener) (s : Standing σ Listener)
    (work : ι → List (Work σ Listener)) : program.Carries s work [] s work := by
  refine ⟨0, fun readings isEmpty i => ?_⟩
  obtain rfl := List.length_eq_zero_iff.1 isEmpty
  exact ⟨rfl, rfl⟩

theorem Carries.single
    (onward : ∀ now, program.Onward now s work chronicle fun i => t.does (next i)) :
    program.Carries s work chronicle t next := by
  refine ⟨1, fun readings isOne => ?_⟩
  obtain ⟨now, rfl⟩ := List.length_eq_one_iff.1 isOne
  exact (onward now).brings

theorem Carries.trans (carries : program.Carries s work chronicle t next)
    (onward : program.Carries t next later u last) :
    program.Carries s work (chronicle ++ later) u last := by
  obtain ⟨count, brings⟩ := carries
  obtain ⟨more, bringsLater⟩ := onward
  refine ⟨count + more, fun readings sameLength => ?_⟩
  rw [← List.take_append_drop count readings]
  exact (brings _ (by simp; omega)).append (bringsLater _ (by simp; omega))

/-- The machine toils on a step with nothing else in progress. -/
theorem Carries.of_toils {before after : σ × (ι → Work σ Listener)}
    (toils : program.Toils before after) (i : Interpreter Listener) :
    program.Carries (i, before.1) (fun k => [before.2 k]) [] (i, after.1)
      fun k => [after.2 k] := by
  induction toils with
  | refl => exact .refl _ _ _
  | @tail middle last _ within ih =>
      have onward : ∀ now, program.Onward now (i, middle.1) (fun k => [middle.2 k]) []
          fun k => Standing.does (i, last.1) [last.2 k] :=
        fun now k => ⟨within.surely (Standing.does (i, middle.1) []) [] k now,
          within.quiet (Standing.does (i, middle.1) []) [] k now⟩
      exact ih.trans (.single onward)

end Carries

section Split

variable {α : Type} {program : Program σ Listener} {s t u : Standing σ Listener}
variable {work middle : (α → Routine σ Listener Unit) → List (Work σ Listener)}
variable {chronicle first : Chronicle Listener} {readings : List Timestamp} {answer : α}

/-- A run that comes to an answer goes through whatever the work leads to in any case. -/
theorem Carries.split (carries : program.Carries s work first u middle)
    (unfinished : middle (fun _ => .done ()) ≠ [])
    (brings : program.Brings readings s work chronicle t fun next => [.client (next answer)]) :
    ∃ later rest, chronicle = first ++ rest ∧
      program.Brings later u middle rest t fun next => [.client (next answer)] := by
  obtain ⟨count, carries⟩ := carries
  rcases Nat.lt_or_ge readings.length count with short | enough
  · -- code that is done after the answer leaves no work that could be in the middle
    obtain ⟨more, isMore⟩ := Nat.exists_eq_add_of_lt short
    let padding : List Timestamp := default :: List.replicate more default
    have ends : _ = u.does (middle fun _ => .done ()) :=
      (carries (readings ++ padding) (by simp [padding]; omega) fun _ => .done ()).1
    have done : (t.does [.client (.done ())]).step? program default =
        some { t.does [.client (.done ())] with work := [] } := rfl
    rw [Execution.runAt_append, (brings _).1, Execution.runAt_cons done,
      Execution.runAt_of_no_work rfl] at ends
    exact absurd (congrArg (·.work) ends).symm unfinished
  · have earlier := carries (readings.take count) (List.length_take_of_le enough)
    have onward : ∀ next, (u.does (middle next)).runAt program (readings.drop count) =
          t.does [.client (next answer)] ∧
        chronicle = first ++ program.chronicleAt (readings.drop count) (u.does (middle next)) := by
      intro next
      obtain ⟨ends, happens⟩ := brings next
      rw [← List.take_append_drop count readings, Execution.runAt_append,
        (earlier next).1] at ends
      rw [← List.take_append_drop count readings, Execution.chronicleAt_append,
        (earlier next).1, (earlier next).2] at happens
      exact ⟨ends, happens.symm⟩
    refine ⟨_, _, (onward fun _ => .done ()).2, fun next => ⟨(onward next).1, ?_⟩⟩
    exact List.append_cancel_left ((onward next).2.symm.trans (onward fun _ => .done ()).2)

/-- Where some work leads to an answer in any case, there is no other. -/
theorem Carries.answer_eq {given : α}
    (carries : program.Carries s work first u fun next => [.client (next given)])
    (brings : program.Brings readings s work chronicle t fun next => [.client (next answer)]) :
    answer = given ∧ chronicle = first ∧ t = u := by
  obtain ⟨later, rest, rfl, onward⟩ := carries.split (by simp) brings
  obtain ⟨rfl, rfl, rfl⟩ := eq_of_returned program fun next _ => (onward next).1
  obtain rfl : [] = rest := (onward fun _ => .done ()).2
  exact ⟨rfl, List.append_nil _, rfl⟩

/-- A step all of whose actions have run takes effect before anything is answered. -/
theorem exists_committed {i : Interpreter Listener} {memory : σ} {event : String} {plan : Plan}
    {context : Context} {raised : List String} {recorded : Bool}
    {origin : (α → Routine σ Listener Unit) → Origin (Work σ Listener)}
    (isRunning : i.lifecycle = .running)
    (isOrigin : ∀ next, (origin next).fired = none ∧ (origin next).isRecorded = recorded)
    (brings : program.Brings readings (i, memory)
      (fun next => [.stepping ⟨origin next, event, plan, [], context, raised⟩]) chronicle t
      fun next => [.client (next answer)]) :
    ∃ own later, commitments chronicle = own :: later ∧
      own.step = ⟨event, none, recorded, plan, context, raised⟩ := by
  obtain ⟨ends, happens⟩ := brings fun _ => .done ()
  obtain ⟨notFired, isRecorded⟩ := isOrigin fun _ => .done ()
  beta_reduce at ends happens
  generalize origin (fun _ => .done ()) = origin at ends happens notFired isRecorded
  cases readings with
  | nil =>
      have isWork := (Standing.does_inj ends).2
      simp at isWork
  | cons now later =>
      have steps : (Standing.does (i, memory) [.stepping ⟨origin, event, plan, [], context,
          raised⟩]).step? program now = some _ := rfl
      rw [Execution.runAt_cons steps] at ends
      rw [Execution.chronicleAt_cons steps] at happens
      simp only [Execution.stepNext, Execution.finish, Standing.does, RunningStep.result, notFired,
        isRecorded] at ends
      cases isCommit : i.commit program.definition now
          ⟨event, none, recorded, plan, context, raised⟩ with
      | discarded => exact absurd isRunning (Interpreter.halted_of_discarded isCommit)
      | overflow after =>
          simp only [isCommit] at ends
          rw [Execution.runAt_of_no_work rfl] at ends
          cases congrArg (·.overflowed) ends
      | published after =>
          have committed : commitments (program.happenings now (Standing.does (i, memory)
              [.stepping ⟨origin, event, plan, [], context, raised⟩])) =
              [i.commitment after program.definition now
                ⟨event, none, recorded, plan, context, raised⟩] := by
            simp only [happenings, Standing.does, RunningStep.result, notFired, isRecorded,
              Interpreter.commitments_ended isCommit]
          rw [← happens, commitments_append, committed]
          exact ⟨_, _, rfl, rfl⟩

end Split

section Answer

variable {program : Program σ Listener} {s t : Standing σ Listener} {event : String}
variable {chronicle : Chronicle Listener} {readings : List Timestamp} {error : InterpreterError}

/-- While nothing else is in progress, giving a machine back leaves nothing of it. -/
theorem released_occupied (idle : s.Idle) : s.1.occupied.release = (s.1, none) := by
  obtain ⟨i, memory⟩ := s
  obtain ⟨notBusy, noQueue, noStop⟩ := idle
  cases i
  simp_all [Interpreter.occupied, Interpreter.release]

/-- An event that is sent to an idle machine is taken from the queue at once. -/
theorem carries_taking (idle : s.Idle) (running : s.1.isRunning = true) (event : String) :
    program.Carries s (Thread.asking event) [.entered (.event event), .taken (.event event)]
      (s.1.occupied, s.2) (program.taking s.1 event none none) := by
  have sent : ∀ now, program.Onward now s (Thread.asking event) [.entered (.event event)]
      fun next => Standing.does ({ s.1 with queue := [.event event], busy := true }, s.2)
        (Thread.draining none none next) := by
    intro now
    have asks : program.Onward now s (Thread.asking event) _ _ := onward_asking idle now event
    simpa [running, Interpreter.requested] using asks
  have taken : ∀ now, program.Onward now ({ s.1 with queue := [.event event], busy := true }, s.2)
      (Thread.draining none none) [.taken (.event event)]
      fun next => Standing.does (s.1.occupied, s.2) (program.taking s.1 event none none next) :=
    fun now => onward_draining_cons rfl now none none
  exact (Carries.single sent).trans (.single taken)

/-- Where no signal waits the pass over the queue ends. -/
theorem carries_released (idle : s.Idle) (memory : σ) (first : Option Delivery)
    (failure : Option InterpreterError) :
    program.Carries (s.1.occupied, memory) (Thread.draining first failure) [] (s.1, memory)
      fun next => [.client (next (Drain.result ⟨first, failure, fun _ => ()⟩))] := by
  let occupied : Standing σ Listener := (s.1.occupied, memory)
  have noQueue : occupied.1.queue = [] := rfl
  have noStop : occupied.1.pendingStop = none := idle.pendingStop
  have ends : ∀ now, program.Onward now occupied (Thread.draining first failure) [] _ :=
    fun now => onward_draining_nil noQueue noStop now first failure
  simp only [occupied, released_occupied idle] at ends
  exact .single ends

/-- What an error says of the step that a request takes itself. That is what has failed, and
nothing has happened; or it is the first step that has taken effect. -/
def Reports (s t : Standing σ Listener) (chronicle : Chronicle Listener)
    (error : InterpreterError) : Except InterpreterError StepResult × σ → Prop
  | (.error failure, memory) => failure = error ∧ t = (s.1, memory) ∧ published chronicle = []
  | (.ok step, _) => ∃ own later, commitments chronicle = own :: later ∧ own.step = step

/-- A request begins a step, and is given back the machine as it was should an action fail. -/
theorem reports_of_begun {α : Type} {begun : Interpreter Listener} {plan : Plan}
    {context : Context} {recorded : Bool} {first : Chronicle Listener}
    {origin : (Except InterpreterError α → Routine σ Listener Unit) → Origin (Work σ Listener)}
    {work : (Except InterpreterError α → Routine σ Listener Unit) → List (Work σ Listener)}
    (silent : program.registry.Silent) (isRunning : begun.lifecycle = .running)
    (isOrigin : ∀ next, (origin next).fired = none ∧ (origin next).isRecorded = recorded)
    (begins : program.Carries s work first (begun, s.2) fun next =>
      [.stepping ⟨origin next, event, plan, plan.invocations, context, []⟩])
    (quiet : published first = [])
    (aborts : ∀ (left : σ) (call : Invocation) (reason : String)
        (step : (Except InterpreterError α → Routine σ Listener Unit) →
          RunningStep (Work σ Listener)),
      (∀ next, (step next).origin = origin next ∧ (step next).event = event) →
      ∃ rest, published rest = [] ∧ program.Carries (begun, left)
        (fun next => [.acting (step next) call (.done (.error reason))]) rest (s.1, left)
        fun next => [.client (next (.error (.actionFailed call.action
          (program.definition.node call.state).id event reason)))])
    (answers : program.Brings readings s work chronicle t fun next =>
      [.client (next (.error error))]) :
    ∃ result, program.result? event recorded plan context s.2 = some result ∧
      Reports s t chronicle error result := by
  have silentPlan : program.Silent plan.invocations :=
    fun call _ action isAction told => silent _ _ isAction told
  obtain ⟨⟨outcome, left⟩, performs⟩ : ∃ result, program.perform? event plan.invocations
      context [] s.2 = some result := silentPlan.exists_perform _ _ _
  have concludes : program.Concludes origin event plan s.2 _ left outcome :=
    concludes_of_perform performs
  refine ⟨_, by rw [result?, performs, Option.map_some], ?_⟩
  cases outcome with
  | error failure =>
      obtain ⟨call, reason, step, rfl, sameOrigin, toils⟩ := concludes
      obtain ⟨rest, unpublished, fails⟩ := aborts left call reason step sameOrigin
      have acts := begins.trans (.of_toils toils begun)
      obtain ⟨isAnswer, rfl, rfl⟩ := (acts.trans fails).answer_eq answers
      simp only [published, List.append_eq_nil_iff, List.map_eq_nil_iff] at quiet unpublished
      exact ⟨(Except.error.inj isAnswer).symm, rfl, by simp [published, quiet, unpublished]⟩
  | ok effect =>
      have acts := begins.trans (.of_toils concludes begun)
      obtain ⟨_, rest, rfl, onward⟩ := acts.split (by simp) answers
      obtain ⟨own, later, committed, isStep⟩ := exists_committed isRunning isOrigin onward
      simp only [published, List.append_eq_nil_iff, List.map_eq_nil_iff] at quiet
      exact ⟨own, later, by simp [committed, quiet], isStep⟩

/-- The step of an event that is sent to an idle machine. -/
theorem reports_of_send (silent : program.registry.Silent) (idle : s.Idle)
    (running : s.1.isRunning = true)
    (answers : program.Answers readings s (.send event) (.error error) chronicle t) :
    ∃ result, program.own? s (.send event) = some result ∧
      Reports s t chronicle error result := by
  have taken : program.Carries s (Thread.asking event) _ _ _ := carries_taking idle running event
  cases selected : program.definition.select program.registry.guard? s.1.configuration s.1.context
      event with
  | nil =>
      -- a signal that nothing handles is no failure
      have isTaking : program.taking s.1 event none none = Thread.draining (some .ignored) none := by
        simp [taking, running, selected]
      rw [isTaking] at taken
      obtain ⟨isAnswer, _⟩ := (taken.trans (carries_released idle _ _ _)).answer_eq answers
      cases isAnswer
  | cons transition transitions =>
      let plan := program.definition.plan s.1.configuration (transition :: transitions)
      have isTaking : program.taking s.1 event none none =
          Thread.stepping none none event plan plan.invocations s.1.context [] := by
        simp [taking, running, selected, plan]
      rw [isTaking] at taken
      have isRunning : s.1.occupied.lifecycle = .running := by
        simpa [Interpreter.isRunning, Interpreter.occupied] using running
      simp only [own?, selected]
      refine reports_of_begun silent isRunning (fun next => ⟨rfl, rfl⟩) taken
        (by simp [published, Happening.committed?, Happening.stopped?]) ?_ answers
      intro left call reason step sameOrigin
      have fails : ∀ now, program.Onward now (s.1.occupied, left)
          (fun next => [.acting (step next) call (.done (.error reason))]) []
          fun next => Standing.does (s.1.occupied, left) (Thread.draining (some .rejected)
            (some (.actionFailed call.action (program.definition.node call.state).id event
              reason)) next) := by
        intro now next
        obtain ⟨isOrigin, sameEvent⟩ := sameOrigin next
        simp [Execution.step?, Execution.proceed, Execution.actionDone, Execution.abort,
          Standing.does, happenings, isOrigin, sameEvent, Drain.note, Thread.draining]
      exact ⟨_, rfl, (Carries.single fails).trans (carries_released idle _ _ _)⟩

/-- The initial entry of a machine that is started. -/
theorem reports_of_start (silent : program.registry.Silent) (tidy : s.1.Tidy program.definition)
    (unstarted : s.1.lifecycle = .notStarted)
    (answers : program.Answers readings s .start (.error error) chronicle t) :
    ∃ result, program.own? s .start = some result ∧ Reports s t chronicle error result := by
  let plan := program.definition.initialPlan
  let origin : (Except InterpreterError Unit → Routine σ Listener Unit) →
      Origin (Work σ Listener) := fun next => .start fun answer => .client (next answer)
  let begun : Interpreter Listener := { s.1 with lifecycle := .running, busy := true }
  have begins : ∀ now, program.Onward now s
      (fun next : Except InterpreterError Unit → Routine σ Listener Unit =>
        [.client (.ask .start next)]) []
      fun next => Standing.does (begun, s.2) [.stepping ⟨origin next, initEvent, plan,
        plan.invocations, program.definition.context, []⟩] := by
    intro now next
    simp [Execution.step?, Execution.proceed, Execution.meet, Standing.does, unstarted, happenings,
      Interpreter.requested, RunningStep.begin, begun, origin, plan]
  have isRunning : begun.lifecycle = .running := rfl
  refine reports_of_begun silent isRunning (fun next => ⟨rfl, rfl⟩) (.single begins) rfl ?_ answers
  intro left call reason step sameOrigin
  have fails : ∀ now, program.Onward now (begun, left)
      (fun next => [.acting (step next) call (.done (.error reason))]) [.dropped]
      fun next => Standing.does (s.1, left) [.client (next (.error (.actionFailed call.action
        (program.definition.node call.state).id initEvent reason)))] := by
    intro now next
    obtain ⟨isOrigin, sameEvent⟩ := sameOrigin next
    simp [Execution.step?, Execution.proceed, Execution.actionDone, Execution.abort,
      Standing.does, happenings, isOrigin, origin, sameEvent, begun,
      abandonStart_begun tidy unstarted, Execution.noticeWork]
  exact ⟨_, rfl, .single fails⟩

end Answer

section Error

variable {program : Program σ Listener} {s t : Standing σ Listener} {execution : Execution σ Listener}
variable {chronicle : Chronicle Listener} {readings : List Timestamp} {error : InterpreterError}

/-- What it says that a request has been answered with an error. -/
structure Failed (program : Program σ Listener) (s : Standing σ Listener)
    (request : Request Listener) (error : InterpreterError) (chronicle : Chronicle Listener)
    (t : Standing σ Listener) : Prop where
  /-- Nothing has happened exactly if it is the request's own step that has failed. -/
  nothing_iff : t.1 = s.1 ∧ published chronicle = [] ↔
    ∃ memory, program.own? s request = some (.error error, memory)
  /-- Else that step has taken effect, and it is the first that has. -/
  otherwise : (∀ memory, program.own? s request ≠ some (.error error, memory)) →
    ∃ step memory own later, program.own? s request = some (.ok step, memory) ∧
      commitments chronicle = own :: later ∧ own.step = step
  /-- Then the machine is started, and all steps that have taken effect are in its history. -/
  started : commitments chronicle ≠ [] → t.1.lifecycle ≠ .notStarted
  history : t.1.history = s.1.history.pushAll (records chronicle)

theorem Failed.of_reports {request : Request Listener}
    (reports : ∃ result, program.own? s request = some result ∧ Reports s t chronicle error result)
    (started : commitments chronicle ≠ [] → t.1.lifecycle ≠ .notStarted)
    (history : t.1.history = s.1.history.pushAll (records chronicle)) :
    program.Failed s request error chronicle t := by
  obtain ⟨⟨outcome, memory⟩, own, reports⟩ := reports
  cases outcome with
  | error failure =>
      obtain ⟨rfl, rfl, nothing⟩ := reports
      exact ⟨⟨fun _ => ⟨memory, own⟩, fun _ => ⟨rfl, nothing⟩⟩, fun other => absurd own (other _),
        started, history⟩
  | ok step =>
      obtain ⟨first, later, committed, isStep⟩ := reports
      refine ⟨⟨?_, ?_⟩, fun _ => ⟨step, memory, first, later, own, committed, isStep⟩, started,
        history⟩
      · rintro ⟨_, nothing⟩
        simp [published, committed] at nothing
      · rintro ⟨_, fails⟩
        cases own.symm.trans fails

/-- Until a request from outside is answered, what takes effect starts the machine and is in
its history. -/
theorem Answers.recorded {request : Request Listener} {answer : request.Answer}
    (answers : program.Answers readings s request answer chronicle t)
    (situated : ∀ code, program.Situated .outside (s.does [.client code])) :
    (commitments chronicle ≠ [] → t.1.lifecycle ≠ .notStarted) ∧
      t.1.history = s.1.history.pushAll (records chronicle) := by
  obtain ⟨_, _, unstarted, history⟩ := (answers.runsTo fun _ => .done ()).induct
    (fun phase i chronicle =>
      (phase.isStarting = true ∨ i.lifecycle = .notStarted → commitments chronicle = []) ∧
        i.history = s.1.history.pushAll (records chronicle))
    rfl (situated _) ⟨fun _ => rfl, rfl⟩ fun _ move ⟨unstarted, history⟩ => by
      refine ⟨fun still => ?_, ?_⟩
      · obtain ⟨before, nothing⟩ := move.unstarted still
        simp [unstarted before, nothing]
      · rw [move.history, history, records_append, History.pushAll_append]
        rfl
  exact ⟨fun some isUnstarted => some (unstarted (.inr isUnstarted)), history⟩

/-- An error with which an event that is sent, or a start, is answered by a machine whose
actions touch nothing but their context says that nothing has happened exactly if the request's
own step has failed. Else that step has taken effect, and one that follows it has failed. -/
theorem error_reported (silent : program.registry.Silent) (reachable : program.Reachable execution)
    (inRange : execution.overflowed = false) (isIdle : execution.interpreter.busy = false) :
    (∀ event readings error chronicle t, execution.interpreter.isRunning = true →
      program.Answers readings execution.standing (.send event) (.error error) chronicle t →
      program.Failed execution.standing (.send event) error chronicle t) ∧
    ∀ readings error chronicle t, execution.interpreter.lifecycle = .notStarted →
      program.Answers readings execution.standing .start (.error error) chronicle t →
      program.Failed execution.standing .start error chronicle t := by
  constructor
  · intro event readings error chronicle t running answers
    have driven := reachable.driven inRange isIdle running
    obtain ⟨_, _, idle⟩ := driven (.done ())
    obtain ⟨started, history⟩ := answers.recorded fun code => (driven code).1
    exact .of_reports (reports_of_send silent idle running answers) started history
  · intro readings error chronicle t unstarted answers
    have driven := reachable.unoccupied inRange isIdle (by simp [unstarted])
    obtain ⟨situated, _, _⟩ := driven (.done ())
    obtain ⟨started, history⟩ := answers.recorded fun code => (driven code).1
    exact .of_reports (reports_of_start silent situated.settled.tidy unstarted answers) started
      history

end Error

/-- The booth before anyone has started it. -/
def closedBooth : Execution Unit Bool :=
  .ofClient (.fresh MachineSpec.booth.resolved none) () (.ask .start fun _ => .done ())

/-- The booth, started and idle. -/
def openBooth : Execution Unit Bool := closedBooth.run (booth []) default 7

theorem silent_booth (greeting : List String) : (booth greeting).registry.Silent := by
  intro name action isAction call
  simp only [booth, Registry.action?, List.lookup_cons, List.lookup_nil] at isAction
  repeat' split at isAction
  all_goals cases isAction
  all_goals trivial

/-- The call is put through before the answer to it fails; so is one that the greeting itself
makes. Both who calls and who opens the booth are told of the failure. -/
theorem booth_fails_after_commit :
    (∃ error chronicle t,
      (booth []).Answers (List.replicate 10 default) openBooth.standing (.send "call")
        (.error error) chronicle t ∧
      ¬ (t.1 = openBooth.interpreter ∧ published chronicle = [])) ∧
    ∃ error chronicle t,
      (booth ["call"]).Answers (List.replicate 14 default) closedBooth.standing .start
        (.error error) chronicle t ∧
      ¬ (t.1 = closedBooth.interpreter ∧ published chronicle = []) := by
  constructor
  · let calls := openBooth.standing.does [.client (.ask (.send "call") fun _ => .done ())]
    have answers : (booth []).Answers (List.replicate 10 default) openBooth.standing (.send "call")
        (.error (.actionFailed "pay" "booth.talking" "answer" "no coins"))
        ((booth []).chronicleAt (List.replicate 10 default) calls)
        (calls.runAt (booth []) (List.replicate 10 default)).standing := by
      intro next
      constructor
      · cbv
      · cbv
    have start : (booth []).RunsTo closedBooth _ openBooth := runsTo_run default 7 closedBooth
    have facts : (openBooth.overflowed, openBooth.interpreter.busy,
        openBooth.interpreter.isRunning) = (false, false, true) := by cbv
    simp only [Prod.mk.injEq] at facts
    obtain ⟨inRange, isIdle, running⟩ := facts
    have own : ((booth []).own? openBooth.standing (.send "call")).map (·.1.isOk) = some true := by
      cbv
    have failed := (error_reported (silent_booth []) ⟨_, _, _, begins_booth [], start.steps⟩ inRange
      isIdle).1 _ _ _ _ _ running answers
    refine ⟨_, _, _, answers, fun nothing => ?_⟩
    obtain ⟨memory, fails⟩ := failed.nothing_iff.1 nothing
    simp [fails, Except.isOk, Except.toBool] at own
  · have answers : (booth ["call"]).Answers (List.replicate 14 default) closedBooth.standing .start
        (.error (.actionFailed "pay" "booth.talking" "answer" "no coins"))
        ((booth ["call"]).chronicleAt (List.replicate 14 default) closedBooth)
        (closedBooth.runAt (booth ["call"]) (List.replicate 14 default)).standing := by
      intro next
      constructor
      · cbv
      · cbv
    have own : ((booth ["call"]).own? closedBooth.standing .start).map (·.1.isOk) = some true := by
      cbv
    have reachable : (booth ["call"]).Reachable closedBooth :=
      ⟨_, _, _, begins_booth ["call"], .refl⟩
    have failed := (error_reported (silent_booth ["call"]) reachable rfl rfl).2 _ _ _ _ rfl answers
    refine ⟨_, _, _, answers, fun nothing => ?_⟩
    obtain ⟨memory, fails⟩ := failed.nothing_iff.1 nothing
    simp [fails, Except.isOk, Except.toBool] at own

end Program

end Statechart
