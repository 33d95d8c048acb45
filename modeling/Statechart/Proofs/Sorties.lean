import Statechart.Proofs.Deliveries
import Statechart.Proofs.Posts

/-!
# Sorties

A mission is always at a post. Whatever is sent to it and whoever listens, it goes from post to
post by its steps, and it is done exactly once it has crashed. One that nobody listens to and
whose clock is not moved can be started, and goes wherever its signals lead.
-/

namespace Statechart

namespace Mission

open Program

variable {σ Listener : Type} {variant : MissionVariant} {escalation : Duration}
variable {listen : Listener → Snapshot → Routine σ Listener Unit}
variable {post next last : Post} {event : String} {flag : Bool} {s : Standing σ Listener}

section Runs

variable {limit : Option UInt64} {memory : σ} {code : Routine σ Listener Unit}
variable {chronicle : Chronicle Listener} {execution : Execution σ Listener}

theorem shown_of_runsTo (positive : escalation ≠ .zero)
    (run : (program variant escalation listen).RunsTo
      (.ofClient (.fresh (chart variant escalation) limit) memory code) chronicle execution) :
    execution.interpreter.Shown (chart variant escalation) := by
  have begins := begins_fresh variant listen positive limit
  exact run.shown (situated_ofClient begins) begins.shown

/-- What holds of a mission before it is started, at its initial entry and at the post that each
step leads to, holds wherever the mission stands. -/
theorem induct_posts (invariant : Post → Bool → List Commitment → Prop)
    (positive : escalation ≠ .zero)
    (run : (program variant escalation listen).RunsTo
      (.ofClient (.fresh (chart variant escalation) limit) memory code) chronicle execution)
    (initially : invariant .off false [])
    (entered : ∀ {steps commitment},
      commitment.snapshot.value = Configuration.value (chart variant escalation).toStateTree
        Post.off.active → invariant .off false (steps ++ [commitment]))
    (kept : ∀ {post next flag steps commitment}, Leads variant post commitment.step.event next →
      commitment.snapshot.value = Configuration.value (chart variant escalation).toStateTree
        next.active → invariant post flag steps →
      invariant next (flagOn commitment.step.event flag) (steps ++ [commitment])) :
    ∃ post flag, execution.interpreter.configuration = post.active ∧
      execution.interpreter.context.bool? predatorKey = some flag ∧
      invariant post flag (Chronicle.commitments chronicle) := by
  refine run.induct_enacted (fun configuration context steps => ∃ post flag,
    configuration = post.active ∧ context.bool? predatorKey = some flag ∧
      invariant post flag steps) (begins_fresh variant listen positive limit)
    silent_defaultActions ?_ ?_
  · exact ⟨.off, false, initialConfiguration_chart variant escalation, predator_initialContext,
      initially⟩
  · rintro now i after step earlier published enacts ⟨post, flag, stands, known, holds⟩
    have shows : (i.commitment after (chart variant escalation) now step).snapshot.value =
        Configuration.value (chart variant escalation).toStateTree step.plan.configuration :=
      congrArg (Configuration.value (chart variant escalation).toStateTree) published.configuration
    rw [published.configuration, published.context]
    rcases leads_of_enacts stands enacts with ⟨_, isOff, isDown⟩ | ⟨next, leads, isNext, flags⟩
    · rw [isOff] at shows
      exact ⟨.off, false, isOff, isDown, entered shows⟩
    · rw [isNext] at shows
      exact ⟨next, _, isNext, flags flag known, kept leads shows holds⟩

/-- A mission that runs has not crashed, and one that is done has. -/
theorem crashed_of_runsTo (positive : escalation ≠ .zero)
    (run : (program variant escalation listen).RunsTo
      (.ofClient (.fresh (chart variant escalation) limit) memory code) chronicle execution)
    (stands : execution.interpreter.configuration = post.active) :
    (execution.interpreter.lifecycle = .running → post ≠ .crashed) ∧
      (execution.interpreter.lifecycle = .done → post = .crashed) := by
  have begins := begins_fresh variant listen positive limit
  have initially := isInFinal_chart variant escalation .off
  rw [← initialConfiguration_chart variant escalation] at initially
  have doneAtEnd := run.doneAtEnd (situated_ofClient begins) rfl initially
  have isInFinal := isInFinal_chart variant escalation post
  rw [← stands] at isInFinal
  refine ⟨fun running => ?_, fun isDone => ?_⟩
  · simpa using isInFinal.symm.trans (doneAtEnd.unfinished running)
  · simpa using isInFinal.symm.trans (doneAtEnd.finished isDone)

end Runs

/-- A mission is at a post, and may be sent the next signal. -/
structure Stationed (post : Post) (flag : Bool) (s : Standing σ Listener) : Prop where
  alone : s.Alone
  running : s.1.lifecycle = .running
  stands : s.1.configuration = post.active
  known : s.1.context.bool? predatorKey = some flag

/-- A mission that nobody listens to is started. -/
theorem exists_started (variant : MissionVariant) (escalation : Duration)
    (listen : Listener → Snapshot → Routine σ Listener Unit) (limit : Option UInt64) (memory : σ) :
    ∃ readings chronicle t, (program variant escalation listen).Answers readings
        (.fresh (chart variant escalation) limit, memory) .start (.ok ()) chronicle t ∧
      Stationed .off false t := by
  let mission := program variant escalation listen
  let fresh : Interpreter Listener := .fresh (chart variant escalation) limit
  let begun : Interpreter Listener := { fresh with lifecycle := .running, busy := true }
  let plan := mission.definition.initialPlan
  obtain ⟨context, performs, isFlag⟩ := perform_defaultActions mission rfl initEvent
    plan.invocations [] memory predator_initialContext
  obtain ⟨_, acts⟩ := (carries_begun (s := (fresh, memory)) rfl rfl performs).exists_brings
  have isInitial : plan.configuration = Post.off.active :=
    initialConfiguration_chart variant escalation
  have goesOn : Configuration.isInFinal mission.definition.toStateTree plan.configuration
      StateTree.root = false := by
    rw [isInitial]
    exact isInFinal_chart variant escalation .off
  have isDown : flagThrough plan false = false :=
    (congrArg (flagThrough · false) (retimes_chart variant escalation).initialPlan_eq).trans
      (tabulated variant).initial.2
  obtain ⟨after, isPublished, running, leads, knows, unheard, noQueue, noStop, alone⟩ :=
    Interpreter.exists_published_alone (i := begun)
      ⟨initEvent, none, false, plan, context, []⟩ rfl rfl rfl rfl rfl rfl goesOn default
      memory
  let origin (next : Except InterpreterError Unit → Routine σ Listener Unit) :
      Origin (Work σ Listener) := .start fun answer => .client (next answer)
  have isOrigin : ∀ next, (origin next).fired = none ∧ (origin next).isRecorded = false :=
    fun _ => ⟨rfl, rfl⟩
  have commits := (onward_published memory isOrigin isPublished).brings
  let told (next : Except InterpreterError Unit → Routine σ Listener Unit)
      (answer : Except InterpreterError Delivery) : Routine σ Listener Unit :=
    next (answer.map fun _ => ())
  have answered : mission.Carries (after, memory) _ _ _ _ :=
    carries_unheard unheard noQueue noStop none none
  obtain ⟨_, answers⟩ := (answered.comp told).exists_brings
  refine ⟨_, _, _, (acts.append commits).append answers, alone, running, leads.trans isInitial, ?_⟩
  rw [← isDown]
  exact (congrArg (·.bool? predatorKey) knows).trans isFlag

/-- A mission that nobody listens to processes a signal that leads on. -/
theorem Stationed.exists_next (escalation : Duration)
    (listen : Listener → Snapshot → Routine σ Listener Unit) (stationed : Stationed post flag s)
    (handled : post.next? variant event = some next) (goesOn : next ≠ .crashed) :
    ∃ readings chronicle t, (program variant escalation listen).Answers readings s (.send event)
        (.ok .processed) chronicle t ∧ Stationed next (flagOn event flag) t := by
  let mission := program variant escalation listen
  obtain ⟨selected, plan, context, isPlan, leads, performs, isFlag⟩ := exists_performed
    escalation listen stationed.stands stationed.known handled s.2
  have running : s.1.isRunning = true := by simp [Interpreter.isRunning, stationed.running]
  have acted : mission.Carries s _ _ _ _ :=
    carries_acted stationed.alone.idle running rfl selected isPlan performs
  obtain ⟨_, acts⟩ := acted.exists_brings
  have notFinal : Configuration.isInFinal mission.definition.toStateTree plan.configuration
      StateTree.root = false := by
    rw [leads]
    exact (isInFinal_chart variant escalation next).trans (by simpa using goesOn)
  obtain ⟨after, isPublished, stillRunning, isNext, knows, unheard, noQueue, noStop, alone⟩ :=
    Interpreter.exists_published_alone (i := s.1.occupied)
      ⟨event, none, true, plan, context, []⟩ stationed.running rfl
      stationed.alone.idle.pendingStop stationed.alone.unheard stationed.alone.atZero rfl notFinal
      default s.2
  have commits := (onward_processed s.2 isPublished).brings
  have answered : mission.Carries (after, s.2) _ _ _ _ :=
    carries_unheard unheard noQueue noStop (some .processed) none
  obtain ⟨_, answers⟩ := answered.exists_brings
  exact ⟨_, _, _, (acts.append commits).append answers, alone, stillRunning, isNext.trans leads,
    (congrArg (·.bool? predatorKey) knows).trans isFlag⟩

/-- Where some events lead in turn. -/
def Post.through? (variant : MissionVariant) : List String → Post → Option Post
  | [], post => some post
  | event :: events, post => (post.next? variant event).bind (through? variant events)

/-- A client sends some events, whatever comes of them. -/
def sending : List String → Routine σ Listener Unit
  | [] => .done ()
  | event :: events => .ask (.send event) fun _ => sending events

/-- A client starts a mission and sends it some events. -/
def sortie (events : List String) : Routine σ Listener Unit :=
  .ask .start fun _ => sending events

theorem Post.ne_crashed_of_through {events : List String}
    (leads : post.through? variant events = some last) (goesOn : last ≠ .crashed) :
    post ≠ .crashed := by
  rintro rfl
  cases events with
  | nil => exact goesOn (Option.some.inj leads).symm
  | cons event events => cases leads

theorem Stationed.exists_sent (escalation : Duration)
    (listen : Listener → Snapshot → Routine σ Listener Unit) {events : List String}
    (stationed : Stationed post flag s) (leads : post.through? variant events = some last)
    (goesOn : last ≠ .crashed) :
    ∃ chronicle t, (program variant escalation listen).RunsTo (s.does [.client (sending events)])
        chronicle (t.does [.client (.done ())]) ∧
      Stationed last (events.foldl (fun flag event => flagOn event flag) flag) t := by
  induction events generalizing post flag s with
  | nil =>
      obtain rfl := Option.some.inj leads
      exact ⟨_, s, .refl, stationed⟩
  | cons event events ih =>
      obtain ⟨next, handled, onward⟩ := Option.bind_eq_some_iff.1 leads
      obtain ⟨_, _, t, answers, isNext⟩ := stationed.exists_next escalation listen
        handled (Post.ne_crashed_of_through onward goesOn)
      obtain ⟨_, u, run, isLast⟩ := ih isNext onward
      exact ⟨_, u, (answers.runsTo fun _ => sending events).trans run, isLast⟩

/-- A mission can be sent wherever its signals lead. -/
theorem exists_sortie (escalation : Duration) {events : List String}
    (listen : Listener → Snapshot → Routine σ Listener Unit) (limit : Option UInt64) (memory : σ)
    (leads : Post.off.through? variant events = some last) (goesOn : last ≠ .crashed) :
    ∃ chronicle t, (program variant escalation listen).RunsTo
        (.ofClient (.fresh (chart variant escalation) limit) memory (sortie events)) chronicle
        (t.does [.client (.done ())]) ∧
      Stationed last (events.foldl (fun flag event => flagOn event flag) false) t := by
  obtain ⟨_, _, t, answers, isOff⟩ := exists_started variant escalation listen limit memory
  obtain ⟨_, u, run, isLast⟩ := isOff.exists_sent escalation listen leads goesOn
  exact ⟨_, u, (answers.runsTo fun _ => sending events).trans run, isLast⟩

/-- Nobody who is told of a mission does anything. -/
def unheeding : Unit → Snapshot → Routine Unit Unit Unit := fun _ _ => .done ()

/-- A mission is deployed and detects a predator. -/
def detecting : List String :=
  [startSoi, flightPlan, readyForMission, startSheepGuardMission, startPatrolling,
    predatorDetected]

end Mission

end Statechart
