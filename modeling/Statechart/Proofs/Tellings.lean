import Statechart.Proofs.Phases

/-!
# Tellings

Who is told what, and in which order. What is published reaches the subscribers one after
another, while they go on making requests. What they have not been told yet is due to them: by
the notification in progress, and after it by a stop that was put off. Told and due together
are what has been published, in the order of publication and of subscription. To be told is to
have one's routine run with the snapshot: that a small step tells somebody is the same as that it
puts this routine on top of the work.
-/

namespace Statechart

variable {σ Listener : Type}

/-- A snapshot for a listener, under the number of its subscription. -/
abbrev Telling (Listener : Type) := Nat × Listener × Snapshot

def Happening.telling? : Happening Listener → Option (Telling Listener)
  | told number listener snapshot => some (number, listener, snapshot)
  | _ => none

/-- How a list of subscribers is told a snapshot. -/
def notices (subscribers : List (Nat × Listener)) (snapshot : Snapshot) : List (Telling Listener) :=
  subscribers.map fun subscriber => (subscriber.1, subscriber.2, snapshot)

@[simp]
theorem notices_nil {snapshot : Snapshot} :
    notices ([] : List (Nat × Listener)) snapshot = [] := rfl

@[simp]
theorem notices_cons (subscriber : Nat × Listener) (subscribers : List (Nat × Listener))
    (snapshot : Snapshot) : notices (subscriber :: subscribers) snapshot =
      (subscriber.1, subscriber.2, snapshot) :: notices subscribers snapshot := rfl

namespace Chronicle

variable (chronicle : Chronicle Listener)

/-- What the subscribers have been told. -/
def tellings : List (Telling Listener) := chronicle.filterMap Happening.telling?

/-- What has been published: the states that steps have led to, and those in which the
machine has been stopped. -/
def published : List Snapshot := (commitments chronicle).map (·.snapshot) ++ farewells chronicle

variable {chronicle}

@[simp]
theorem tellings_nil : tellings ([] : Chronicle Listener) = [] := rfl

@[simp]
theorem tellings_cons (happening : Happening Listener) :
    tellings (happening :: chronicle) = happening.telling?.toList ++ tellings chronicle := by
  simp [tellings, List.filterMap_eq_flatMap_toList]

@[simp]
theorem tellings_append {later : Chronicle Listener} :
    tellings (chronicle ++ later) = tellings chronicle ++ tellings later :=
  List.filterMap_append

@[simp]
theorem tellings_ofRaised (events : List String) :
    tellings (ofRaised events : Chronicle Listener) = [] := by
  simp [tellings, ofRaised, Happening.telling?, List.filterMap_map, Function.comp_def]

end Chronicle

open Chronicle

theorem Interpreter.tellings_ended {before published : Interpreter Listener}
    {definition : Definition} {now : Timestamp} {step : StepResult}
    (isPublished : before.commit definition now step = .published published) :
    tellings (before.ended definition now step) = [] := by
  rw [ended_of_published isPublished]
  split <;> simp [Happening.telling?]

def Work.due : Work σ Listener → List (Telling Listener)
  | .notifying subscribers snapshot => notices subscribers snapshot
  | _ => []

@[simp]
theorem Work.due_notifying (subscribers : List (Nat × Listener)) (snapshot : Snapshot) :
    (Work.notifying subscribers snapshot : Work σ Listener).due =
      notices subscribers snapshot := rfl

@[simp]
theorem Work.due_draining (drain : Drain (Work σ Listener)) : (Work.draining drain).due = [] := rfl

/-- What is due because of a stop that was put off. -/
def Interpreter.due (interpreter : Interpreter Listener) : List (Telling Listener) :=
  match interpreter.pendingStop with
  | some (subscribers, snapshot) => notices subscribers snapshot
  | none => []

/-- What the subscribers are still to be told of what has been published. -/
def Execution.due (execution : Execution σ Listener) : List (Telling Listener) :=
  execution.work.flatMap Work.due ++ execution.interpreter.due

namespace Phase

def due : Phase σ Listener → List (Telling Listener)
  | .news subscribers snapshot | .farewell subscribers snapshot => notices subscribers snapshot
  | .outside | .step _ | .pass => []

open Work

theorem due_of_leads {kind : Work σ Listener → Prop} {work : Work σ Listener}
    (leads : Leads kind work)
    (other : ∀ subscribers snapshot, ¬ kind (.notifying subscribers snapshot)) : work.due = [] := by
  cases leads with
  | @here _ isKind =>
      cases work with
      | notifying subscribers snapshot => exact absurd isKind (other _ _)
      | _ => rfl
  | advancing => rfl

/-- By the work of a phase is due what is due in the phase. -/
theorem Arranged.due {phase : Phase σ Listener} {work : List (Work σ Listener)}
    (arranged : phase.Arranged work) : work.flatMap Work.due = phase.due := by
  have client : ∀ {work : Work σ Listener}, Outside work → work.due = [] :=
    fun outside => due_of_leads outside (by simp [IsClient])
  have listening : ∀ {work : Work σ Listener}, Leads IsListening work → work.due = [] :=
    fun leads => due_of_leads leads (by simp [IsListening])
  cases arranged with
  | ended => rfl
  | pass after => rfl
  | news after => simp [Phase.due]
  | farewell outside => simp [Phase.due, client outside]
  | hosted hosts leads =>
      cases hosts with
      | client => simp [Phase.due, client leads]
      | step after => simp [Phase.due, due_of_leads leads (by simp [IsOf])]
      | news after => simp [Phase.due, listening leads]
      | farewell outside => simp [Phase.due, listening leads, client outside]

end Phase

/-- The last snapshot shows what was committed last. -/
structure Interpreter.Shown (definition : Definition) (interpreter : Interpreter Listener) :
    Prop where
  value : interpreter.snapshot.value =
    Configuration.value definition.toStateTree interpreter.configuration
  context : interpreter.snapshot.context = interpreter.context

namespace Program

/-- A small step runs the routine of the listener that is to be told next, with what it is told, or
no routine of a listener: then it is the same whatever those routines are. -/
inductive Tells (program : Program σ Listener) (now : Timestamp)
    (before after : Execution σ Listener) : List (Telling Listener) → Prop
  | told {number : Nat} {listener : Listener} {subscribers : List (Nat × Listener)}
      {snapshot : Snapshot} {rest : List (Work σ Listener)}
      (isWork : before.work = .notifying ((number, listener) :: subscribers) snapshot :: rest)
      (calls : after.work = .listening (program.listen listener snapshot) ::
        .notifying subscribers snapshot :: rest) :
      Tells program now before after [(number, listener, snapshot)]
  | nobody
      (same : ∀ listen, before.step? { program with listen } now = before.step? program now) :
      Tells program now before after []

variable {program : Program σ Listener} {now : Timestamp} {phase next : Phase σ Listener}
variable {i after : Interpreter Listener} {happenings : Chronicle Listener}

theorem Move.shown (move : program.Move now phase i happenings next after)
    (shown : i.Shown program.definition) : after.Shown program.definition := by
  cases move with
  | stop =>
      cases lifecycle : i.lifecycle <;> cases busy : i.busy <;>
        exact ⟨by simp [Interpreter.stop, lifecycle, busy, shown.value],
          by simp [Interpreter.stop, lifecycle, busy, shown.context]⟩
  | publish isPublished =>
      have published := Interpreter.published_of_commit isPublished
      exact ⟨by simp [published.snapshot], by simp [published.snapshot]⟩
  | _ => exact ⟨shown.value, shown.context⟩

/-- The last snapshot tells how far the machine has come in its life. -/
theorem Move.status (move : program.Move now phase i happenings next after)
    (status : i.snapshot.status = i.lifecycle.status) :
    after.snapshot.status = after.lifecycle.status := by
  cases move with
  | begin unstarted => simpa [unstarted, Lifecycle.status] using status
  | stop =>
      cases lifecycle : i.lifecycle <;> cases busy : i.busy <;>
        simp [Interpreter.stop, lifecycle, busy, status, Lifecycle.status]
  | publish isPublished => simp [(Interpreter.published_of_commit isPublished).snapshot]
  | abandon =>
      cases lifecycle : i.lifecycle <;>
        simp [Interpreter.abandonStart, Interpreter.release, lifecycle, status, Lifecycle.status]
  | _ => exact status

theorem Begins.shown (begins : program.Begins i) : i.Shown program.definition := by
  obtain ⟨_, _, _, _, rfl⟩ := begins.exists_assemble
  exact ⟨rfl, rfl⟩

/-- A stop of a machine that has not ended publishes its state, as stopped. -/
theorem farewells_stop (lasts : i.lifecycle = .notStarted ∨ i.lifecycle = .running) :
    farewells (i.requested program.definition .stop) =
      [⟨Configuration.value program.definition.toStateTree i.configuration, i.context,
        .stopped⟩] := by
  rcases lasts with lifecycle | lifecycle <;>
    simp [Interpreter.requested, lifecycle, Happening.stopped?]

theorem commitments_stop : commitments (i.requested program.definition .stop) = [] := by
  cases lifecycle : i.lifecycle <;>
    simp [Interpreter.requested, lifecycle, Happening.committed?]

theorem tellings_stop : tellings (i.requested program.definition .stop) = [] := by
  cases lifecycle : i.lifecycle <;>
    simp [Interpreter.requested, lifecycle, Happening.telling?]

theorem tellings_requested {i : Interpreter Listener} (request : Request Listener) :
    tellings (i.requested program.definition request) = [] := by
  cases request with
  | stop => exact tellings_stop
  | send event => cases running : i.isRunning <;>
      simp [Interpreter.requested, running, Happening.telling?]
  | _ => rfl

section Unheard

variable {before : Execution σ Listener}
variable {top : Work σ Listener} {rest : List (Work σ Listener)}
variable (isWork : before.work = top :: rest)
variable (unheard : ∀ subscriber subscribers snapshot,
  top ≠ .notifying (subscriber :: subscribers) snapshot)

include isWork unheard

theorem tellings_of_unheard : tellings (program.happenings now before) = [] := by
  cases top with
  | client code => cases code <;> simp [happenings, isWork, tellings_requested]
  | listening code => cases code <;> simp [happenings, isWork, tellings_requested]
  | acting step call code =>
      cases code with
      | done result =>
          cases result <;> cases origin : step.origin <;>
            simp [happenings, isWork, origin, Happening.telling?]
      | ask request next => simp [happenings, isWork, tellings_requested]
      | _ => simp [happenings, isWork]
  | stepping step =>
      cases pending : step.pending with
      | nil =>
          simp only [happenings, isWork, pending]
          cases commit : before.interpreter.commit program.definition now step.result with
          | published interpreter => exact Interpreter.tellings_ended commit
          | _ => simp [Interpreter.ended, commit]
      | cons call pending => simp [happenings, isWork, pending]
  | notifying subscribers snapshot =>
      cases subscribers with
      | nil => simp [happenings, isWork]
      | cons subscriber subscribers => exact absurd rfl (unheard _ _ _)
  | draining drain =>
      cases queue : before.interpreter.queue <;>
        simp [happenings, isWork, queue, Happening.telling?]
  | advancing limit fired resume =>
      simp only [happenings, isWork, Interpreter.fired]
      split
      · split <;> rfl
      · rfl

theorem step?_of_unheard (listen : Listener → Snapshot → Routine σ Listener Unit) :
    before.step? { program with listen } now = before.step? program now := by
  simp only [Execution.step?, isWork]
  cases top with
  | notifying subscribers snapshot =>
      cases subscribers with
      | nil => rfl
      | cons subscriber subscribers => exact absurd rfl (unheard _ _ _)
  | _ => rfl

end Unheard

/-- What a small step tells is told to routines that it runs, and it runs no others. -/
theorem tells_of_step {before after : Execution σ Listener}
    (steps : before.step? program now = some after) :
    program.Tells now before after (tellings (program.happenings now before)) := by
  by_cases isNotice : ∃ subscriber subscribers snapshot rest,
      before.work = .notifying (subscriber :: subscribers) snapshot :: rest
  · obtain ⟨subscriber, subscribers, snapshot, rest, isWork⟩ := isNotice
    have tells : tellings (program.happenings now before) =
        [(subscriber.1, subscriber.2, snapshot)] := by
      simp [happenings, isWork, Happening.telling?]
    simp only [Execution.step?, isWork] at steps
    obtain rfl := Option.some.inj steps
    rw [tells]
    exact .told isWork rfl
  · cases isWork : before.work with
    | nil => simp [Execution.step?, isWork] at steps
    | cons top rest =>
        have unheard : ∀ subscriber subscribers snapshot,
            top ≠ .notifying (subscriber :: subscribers) snapshot := by
          rintro subscriber subscribers snapshot rfl
          exact isNotice ⟨_, _, _, _, isWork⟩
        rw [tellings_of_unheard isWork unheard]
        exact .nobody (step?_of_unheard isWork unheard)

/-- What a stop publishes is due to whoever is subscribed: it is told next, or put off. -/
theorem due_stop (fits : phase.Fits i) (shown : i.Shown program.definition) :
    (phase.bidding i.stop.2).due ++ i.stop.1.due =
      (phase.due ++ i.due) ++
        (farewells (i.requested program.definition .stop)).flatMap (notices i.listeners) := by
  by_cases lasts : i.lifecycle = .notStarted ∨ i.lifecycle = .running
  · have nothing : i.pendingStop = none := by
      by_contra putOff
      have isStopped := fits.putOff putOff
      simp [isStopped] at lasts
    let last : Snapshot := ⟨i.snapshot.value, i.snapshot.context, .stopped⟩
    have farewell : farewells (i.requested program.definition .stop) = [last] := by
      simp [farewells_stop lasts, last, shown.value, shown.context]
    rw [farewell]
    cases busy : i.busy with
    | true =>
        have unnoticed := Interpreter.stop_of_busy busy
        have putOff : i.stop.1.pendingStop = some (i.listeners, last) := by
          rcases lasts with lifecycle | lifecycle <;>
            simp [Interpreter.stop, lifecycle, busy, last]
        simp [unnoticed, Phase.bidding, Interpreter.due, nothing, putOff]
    | false =>
        have isOutside : phase = .outside := by
          apply fits.eq_outside busy
          rcases lasts with lifecycle | lifecycle <;> simp [lifecycle]
        have notice : i.stop.2 = some (i.listeners, last) := by
          rcases lasts with lifecycle | lifecycle <;>
            simp [Interpreter.stop, lifecycle, busy, last]
        have stillNothing : i.stop.1.pendingStop = none := by
          rcases lasts with lifecycle | lifecycle <;>
            simp [Interpreter.stop, lifecycle, busy, nothing]
        simp [isOutside, notice, Phase.bidding, Phase.due, Interpreter.due, nothing, stillNothing]
  · cases lifecycle : i.lifecycle with
    | notStarted | running => simp [lifecycle] at lasts
    | done | stopped =>
        simp [Interpreter.stop, Interpreter.requested, lifecycle, Phase.bidding, Interpreter.due,
          Happening.stopped?]

/-- A move tells what was due, or what it publishes comes to be due, after all else and to
whoever is subscribed. -/
theorem Move.due (move : program.Move now phase i happenings next after) (fits : phase.Fits i)
    (shown : i.Shown program.definition) :
    tellings happenings ++ (next.due ++ after.due) =
      (phase.due ++ i.due) ++ (published happenings).flatMap (notices i.listeners) := by
  cases move with
  | stop =>
      simpa [published, tellings_stop, commitments_stop] using due_stop fits shown
  | tell | bid =>
      simp [published, Phase.due, Interpreter.due, Happening.telling?, Happening.committed?,
        Happening.stopped?]
  | release =>
      cases putOff : i.pendingStop <;>
        simp [published, Phase.due, Phase.bidding, Interpreter.due, Interpreter.release, putOff]
  | publish isPublished =>
      have taken := Interpreter.published_of_commit isPublished
      have nothing : i.pendingStop = none := by
        by_contra putOff
        cases taken.wasRunning.symm.trans (fits.putOff putOff)
      simp [published, Interpreter.tellings_ended isPublished,
        Interpreter.commitments_ended isPublished, Interpreter.farewells_ended isPublished,
        Interpreter.snapshot_commitment isPublished, Phase.due, Interpreter.due, taken.pendingStop,
        taken.listeners, nothing]
  | abandon =>
      cases putOff : i.pendingStop <;>
        simp [published, Phase.due, Phase.bidding, Interpreter.due, Interpreter.abandonStart,
          Interpreter.release, putOff, Happening.telling?, Happening.committed?,
          Happening.stopped?]
  | _ => simp [published, Phase.due, Interpreter.due, Happening.telling?, Happening.committed?,
      Happening.stopped?, Interpreter.enqueue, Interpreter.subscribe, Interpreter.unsubscribe]

/-- A machine that has ended publishes nothing. -/
theorem Move.published_eq_nil (move : program.Move now phase i happenings next after)
    (ended : i.lifecycle = .done ∨ i.lifecycle = .stopped) : published happenings = [] := by
  cases move with
  | stop =>
      rcases ended with lifecycle | lifecycle <;>
        simp [published, Interpreter.requested, lifecycle, Happening.committed?,
          Happening.stopped?]
  | publish isPublished =>
      have wasRunning := (Interpreter.published_of_commit isPublished).wasRunning
      simp [wasRunning] at ended
  | _ => rfl

/-- Without work nothing is due. -/
theorem Situated.due_eq_nil {execution : Execution σ Listener}
    (situated : program.Situated phase execution) (noWork : execution.work = []) :
    execution.due = [] := by
  have arranged := situated.arranged
  rw [noWork] at arranged
  cases arranged
  have nothing := (situated.settled.tidy.idle situated.fits.busy).2
  simp [Execution.due, noWork, Interpreter.due, nothing]

end Program

end Statechart
