import Statechart.Proofs.Errors

/-!
# Deliveries

An event that an idle machine takes runs the actions of its step, the step is committed, the
subscribers are told, and the event is answered. Only the commit looks at the clock. Where the
step ends the machine, it refuses whatever its subscribers request: the event has been processed,
and the machine is left as the step has made it.
-/

namespace Statechart

variable {σ Listener : Type}

/-- The notification of a step, before the pass over the queue goes on. -/
def Thread.telling (subscribers : List (Nat × Listener)) (snapshot : Snapshot)
    (first : Option Delivery) (failure : Option InterpreterError) : Thread σ Listener :=
  fun next => [.notifying subscribers snapshot,
    .draining { first, failure, resume := fun answer => .client (next answer) }]

/-- Nobody listens to a machine whose clock stands at its beginning, and nothing else is in
progress. -/
structure Standing.Alone (standing : Standing σ Listener) : Prop where
  idle : standing.Idle
  unheard : standing.1.listeners = []
  atZero : standing.1.now = .zero

namespace Interpreter

variable {i after last : Interpreter Listener}

/-- While the work in progress of a machine that is over runs out, nothing of the machine
changes and no signal enters its queue. -/
structure Rests (before after : Interpreter Listener) : Prop where
  unmoved : before.Unmoved after
  queue : before.queue = [] → after.queue = []
  pendingStop : after.pendingStop = before.pendingStop

theorem Rests.refl (interpreter : Interpreter Listener) : interpreter.Rests interpreter :=
  ⟨.refl _, id, rfl⟩

theorem Rests.trans (first : i.Rests after) (second : after.Rests last) : i.Rests last where
  unmoved := first.unmoved.trans second.unmoved
  queue noQueue := second.queue (first.queue noQueue)
  pendingStop := second.pendingStop.trans first.pendingStop

theorem IsOver.rests_afterRequest (isOver : i.IsOver) (request : Request Listener) :
    i.Rests (i.afterRequest request) where
  unmoved := isOver.unmoved_afterRequest request
  queue noQueue := by
    rcases isOver with isOver | isOver <;> cases request <;>
      simp [afterRequest, stop, subscribe, unsubscribe, isOver, noQueue]
  pendingStop := by
    rcases isOver with isOver | isOver <;> cases request <;>
      simp [afterRequest, stop, subscribe, unsubscribe, isOver]

/-- A step of a machine to which nobody listens, which raises no events and does not lead where
the machine ends. -/
theorem exists_published_alone {definition : Definition} (step : StepResult)
    (running : i.lifecycle = .running) (noQueue : i.queue = []) (noStop : i.pendingStop = none)
    (unheard : i.listeners = []) (atZero : i.now = .zero) (noRaised : step.raised = [])
    (goesOn : Configuration.isInFinal definition.toStateTree step.plan.configuration
      StateTree.root = false) (now : Timestamp) (memory : σ) :
    ∃ after, i.commit definition now step = .published after ∧ after.lifecycle = .running ∧
      after.configuration = step.plan.configuration ∧ after.context = step.context ∧
      after.listeners = [] ∧ after.queue = [] ∧ after.pendingStop = none ∧
      Standing.Alone (after.release.1, memory) := by
  obtain ⟨timers, arms, stillZero⟩ := timersAfter_of_zero definition step i atZero
  rw [commit, if_neg (not_not_intro running), arms]
  simp only [goesOn, noRaised, noQueue, Bool.false_eq_true, if_false, List.map_nil,
    List.append_nil]
  exact ⟨_, rfl, running, rfl, rfl, unheard, rfl, noStop, ⟨rfl, rfl, rfl⟩, unheard, stillZero⟩

end Interpreter

namespace Program

variable {program : Program σ Listener} {s t u : Standing σ Listener}

section Over

variable {ι κ : Type} {work later : ι → List (Work σ Listener)} {chronicle : Chronicle Listener}

theorem Carries.exists_brings (carries : program.Carries s work chronicle t later) :
    ∃ readings, program.Brings readings s work chronicle t later := by
  obtain ⟨count, brings⟩ := carries
  exact ⟨_, brings (List.replicate count default) List.length_replicate⟩

/-- What holds whatever goes on holds of what goes on with something made of the result. -/
theorem Carries.comp (carries : program.Carries s work chronicle t later) (make : κ → ι) :
    program.Carries s (fun k => work (make k)) chronicle t fun k => later (make k) := by
  obtain ⟨count, brings⟩ := carries
  exact ⟨count, fun readings sameLength k => brings readings sameLength (make k)⟩

/-- What a listener requests of a machine that is over is refused, until its code is done. -/
theorem carries_listening (program : Program σ Listener) (code : Routine σ Listener Unit)
    (isOver : s.1.IsOver) (rest : ι → List (Work σ Listener)) :
    ∃ chronicle t, program.Carries s (fun k => .listening code :: rest k) chronicle t rest ∧
      s.1.Rests t.1 := by
  induction code generalizing s with
  | done result =>
      have ends : ∀ now, program.Onward now s (fun k => .listening (.done result) :: rest k) []
          fun k => s.does (rest k) := fun _ _ => ⟨rfl, rfl⟩
      exact ⟨_, _, .single ends, .refl _⟩
  | read next ih =>
      have reads : ∀ now, program.Onward now s (fun k => .listening (.read next) :: rest k) []
          fun k => s.does (.listening (next s.2) :: rest k) := fun _ _ => ⟨rfl, rfl⟩
      obtain ⟨_, t, carries, rests⟩ := ih s.2 isOver
      exact ⟨_, t, (Carries.single reads).trans carries, rests⟩
  | write memory next ih =>
      have writes : ∀ now, program.Onward now s (fun k => .listening (.write memory next) :: rest k)
          [] fun k => Standing.does (s.1, memory) (.listening next :: rest k) :=
        fun _ _ => ⟨rfl, rfl⟩
      have stillOver : Interpreter.IsOver (s.1, memory).1 := isOver
      obtain ⟨_, t, carries, rests⟩ := ih stillOver
      exact ⟨_, t, (Carries.single writes).trans carries, rests⟩
  | ask request next ih =>
      have asks : ∀ now, program.Onward now s (fun k => .listening (.ask request next) :: rest k)
          (s.1.requested program.definition request) fun k =>
            Standing.does (s.1.afterRequest request, s.2)
              (.listening (next (s.1.lastAnswer request)) :: rest k) := by
        intro now k
        have steps : (s.does (.listening (.ask request next) :: rest k)).step? program now =
          some (Execution.meet program _ (rest k) request fun answer => .listening (next answer)) :=
            rfl
        rw [Execution.meet_of_over isOver] at steps
        exact ⟨steps, rfl⟩
      have rests := isOver.rests_afterRequest request
      have stillOver : Interpreter.IsOver (s.1.afterRequest request, s.2).1 :=
        rests.unmoved.isOver isOver
      obtain ⟨_, t, carries, later⟩ := ih _ stillOver
      exact ⟨_, t, (Carries.single asks).trans carries, rests.trans later⟩

theorem carries_notifying (program : Program σ Listener) (subscribers : List (Nat × Listener))
    (snapshot : Snapshot) (isOver : s.1.IsOver) (rest : ι → List (Work σ Listener)) :
    ∃ chronicle t, program.Carries s (fun k => .notifying subscribers snapshot :: rest k)
      chronicle t rest ∧ s.1.Rests t.1 := by
  induction subscribers generalizing s with
  | nil =>
      have ends : ∀ now, program.Onward now s (fun k => .notifying [] snapshot :: rest k) []
          fun k => s.does (rest k) := fun _ _ => ⟨rfl, rfl⟩
      exact ⟨_, _, .single ends, .refl _⟩
  | cons subscriber subscribers ih =>
      obtain ⟨number, listener⟩ := subscriber
      have tells : ∀ now, program.Onward now s
          (fun k => .notifying ((number, listener) :: subscribers) snapshot :: rest k)
          [.told number listener snapshot] fun k =>
            s.does (.listening (program.listen listener snapshot) ::
              .notifying subscribers snapshot :: rest k) := fun _ _ => ⟨rfl, rfl⟩
      obtain ⟨_, t, listens, rests⟩ := carries_listening program
        (program.listen listener snapshot) isOver
        fun k => .notifying subscribers snapshot :: rest k
      obtain ⟨_, u, carries, later⟩ := ih (rests.unmoved.isOver isOver)
      exact ⟨_, u, ((Carries.single tells).trans listens).trans carries, rests.trans later⟩

/-- Once a machine is over, the event whose step has ended it is answered and the machine stays
as it is. -/
theorem carries_over (program : Program σ Listener) (subscribers : List (Nat × Listener))
    (snapshot : Snapshot) (first : Option Delivery) (failure : Option InterpreterError)
    (isOver : s.1.IsOver)
    (noQueue : s.1.queue = []) (noStop : s.1.pendingStop = none) :
    ∃ chronicle t, program.Carries s (Thread.telling subscribers snapshot first failure) chronicle t
        (fun next => [.client (next (Drain.result ⟨first, failure, fun _ => ()⟩))]) ∧
      s.1.Unmoved t.1 ∧ t.Idle := by
  obtain ⟨_, t, tells, rests⟩ := carries_notifying program subscribers snapshot isOver
    (Thread.draining first failure)
  have stillEmpty := rests.queue noQueue
  have stillNoStop := rests.pendingStop.trans noStop
  have ends : program.Carries t (Thread.draining first failure) _ _ _ :=
    .single fun now => onward_draining_nil stillEmpty stillNoStop now first failure
  exact ⟨_, _, tells.trans ends, rests.unmoved.trans ⟨rfl, rfl, rfl, rfl, rfl⟩,
    ⟨rfl, stillEmpty, rfl⟩⟩

end Over

section Event

variable {now : Timestamp} {event : String} {transitions : List Transition} {plan : Plan}
variable {context : Context} {raised : List String} {left : σ} {readings : List Timestamp}
variable {answer : Except InterpreterError Delivery} {chronicle : Chronicle Listener}

/-- An event that takes transitions runs all actions of its step, if they succeed. -/
theorem carries_acted (idle : s.Idle) (running : s.1.isRunning = true)
    (selected : program.definition.select program.registry.guard? s.1.configuration s.1.context
      event = transitions) (handled : transitions ≠ [])
    (isPlan : program.definition.plan s.1.configuration transitions = plan)
    (performs : program.perform? event plan.invocations s.1.context [] s.2 =
      some (.ok (context, raised), left)) :
    program.Carries s (Thread.asking event) [.entered (.event event), .taken (.event event)]
      (s.1.occupied, left) (Thread.stepping none none event plan [] context raised) := by
  obtain ⟨transition, others, rfl⟩ := List.exists_cons_of_ne_nil handled
  have isTaking : program.taking s.1 event none none =
      Thread.stepping none none event plan plan.invocations s.1.context [] := by
    simp [taking, running, selected, isPlan]
  have taken : program.Carries s (Thread.asking event) _ _ _ := carries_taking idle running event
  rw [isTaking] at taken
  exact taken.trans (.of_toils (concludes_of_perform performs) s.1.occupied)

/-- A machine that is started runs all actions of its initial step, if they succeed. -/
theorem carries_begun (unstarted : s.1.lifecycle = .notStarted)
    (isPlan : program.definition.initialPlan = plan)
    (performs : program.perform? initEvent plan.invocations program.definition.context [] s.2 =
      some (.ok (context, raised), left)) :
    program.Carries s (fun next => [.client (.ask .start next)]) []
      ({ s.1 with lifecycle := .running, busy := true }, left) fun next =>
        [.stepping ⟨.start fun answer => .client (next answer), initEvent, plan, [], context,
          raised⟩] := by
  have begins : ∀ now, program.Onward now s (fun next => [.client (.ask .start next)]) []
      fun next => Standing.does ({ s.1 with lifecycle := .running, busy := true }, s.2)
        [.stepping ⟨.start fun answer => .client (next answer), initEvent, plan, plan.invocations,
          program.definition.context, []⟩] := by
    intro now next
    simp [Execution.step?, Execution.proceed, Execution.meet, Standing.does, unstarted, happenings,
      Interpreter.requested, RunningStep.begin, isPlan]
  exact (Carries.single begins).trans (.of_toils (concludes_of_perform performs) _)

/-- A step all of whose actions have run is committed, if its deadlines are within the range of
the clock. -/
theorem onward_published {ι : Type} {origin : ι → Origin (Work σ Listener)}
    {i after : Interpreter Listener} {fired : Option (TimerKey × Nat)} {recorded : Bool}
    (memory : σ) (isOrigin : ∀ k, (origin k).fired = fired ∧ (origin k).isRecorded = recorded)
    (isPublished : i.commit program.definition now ⟨event, fired, recorded, plan, context,
      raised⟩ = .published after) :
    program.Onward now (i, memory) (fun k => [.stepping ⟨origin k, event, plan, [], context,
        raised⟩])
      (i.ended program.definition now ⟨event, fired, recorded, plan, context, raised⟩) fun k =>
        Standing.does (after, memory) [.notifying after.listeners after.snapshot,
          .draining (Execution.drainAfter (origin k) .processed)] := by
  intro k
  obtain ⟨isFired, isRecorded⟩ := isOrigin k
  simp [Execution.step?, Execution.stepNext, Execution.finish, Standing.does, RunningStep.result,
    happenings, isFired, isRecorded, isPublished]

/-- A step that an event has taken is committed: the event has been processed. -/
theorem onward_processed {i after : Interpreter Listener} (memory : σ)
    (isPublished : i.commit program.definition now ⟨event, none, true, plan, context, raised⟩ =
      .published after) :
    program.Onward now (i, memory) (Thread.stepping none none event plan [] context raised)
      (i.ended program.definition now ⟨event, none, true, plan, context, raised⟩) fun next =>
        Standing.does (after, memory) (Thread.telling after.listeners after.snapshot
          (some .processed) none next) :=
  onward_published memory (fun _ => ⟨rfl, rfl⟩) isPublished

/-- An event whose step leads where the machine ends. Its actions succeed, and all timers of
what it enters can be armed. -/
structure Finishing (program : Program σ Listener) (s : Standing σ Listener) (event : String)
    (plan : Plan) (context : Context) : Prop where
  idle : s.Idle
  running : s.1.isRunning = true
  handled : program.definition.select program.registry.guard? s.1.configuration s.1.context
    event ≠ []
  isPlan : program.definition.plan s.1.configuration (program.definition.select
    program.registry.guard? s.1.configuration s.1.context event) = plan
  performs : ∃ raised left, program.perform? event plan.invocations s.1.context [] s.2 =
    some (.ok (context, raised), left)
  arms : ∀ timers : Timers, (timers.armAll (program.definition.timersOf plan.entered)).2 = true
  isFinal : Configuration.isInFinal program.definition.toStateTree plan.configuration
    StateTree.root = true

/-- What an event has made of a machine that it has ended, except for the timers. -/
structure Finished (program : Program σ Listener) (plan : Plan) (context : Context)
    (t : Standing σ Listener) : Prop where
  idle : t.Idle
  isDone : t.1.lifecycle = .done
  configuration : t.1.configuration = plan.configuration
  snapshot : t.1.snapshot =
    ⟨Configuration.value program.definition.toStateTree plan.configuration, context, .done⟩

namespace Finishing

variable (finishing : program.Finishing s event plan context)

include finishing

theorem exists_published (raised : List String) (now : Timestamp) :
    ∃ after, s.1.occupied.commit program.definition now ⟨event, none, true, plan, context, raised⟩ =
        .published after ∧ after.queue = [] ∧ after.pendingStop = none ∧
      after.lifecycle = .done ∧ after.configuration = plan.configuration ∧
      after.snapshot = ⟨Configuration.value program.definition.toStateTree plan.configuration,
        context, .done⟩ := by
  have running : s.1.occupied.lifecycle = .running := by
    simpa [Interpreter.isRunning, Interpreter.occupied] using finishing.running
  obtain ⟨timers, arms⟩ : ∃ timers, s.1.occupied.timersAfter program.definition
      ⟨event, none, true, plan, context, raised⟩ = (timers, true) :=
    ⟨_, Prod.ext rfl (finishing.arms _)⟩
  have noStop : s.1.occupied.pendingStop = none := finishing.idle.pendingStop
  rw [Interpreter.commit, if_neg (not_not_intro running), arms]
  simp only [finishing.isFinal, if_true]
  exact ⟨_, rfl, rfl, noStop, rfl, rfl, rfl⟩

/-- Once the step is committed the event has been processed. -/
theorem exists_carries {after : Interpreter Listener} {raised : List String} (left : σ)
    (isPublished : s.1.occupied.commit program.definition now
      ⟨event, none, true, plan, context, raised⟩ = .published after) :
    ∃ chronicle t, program.Carries (after, left)
        (Thread.telling after.listeners after.snapshot (some .processed) none) chronicle t
        (fun next => [.client (next (.ok .processed))]) ∧
      program.Finished plan context t := by
  obtain ⟨after', isPublished', noQueue, noStop, isDone, leads, shows⟩ :=
    finishing.exists_published raised now
  obtain rfl := Commit.published.inj (isPublished'.symm.trans isPublished)
  obtain ⟨_, t, carries, unmoved, idle⟩ := carries_over program (s := (after', left))
    after'.listeners after'.snapshot (some .processed) none (.inl isDone) noQueue noStop
  exact ⟨_, t, carries, idle, unmoved.lifecycle.trans isDone, unmoved.configuration.trans leads,
    unmoved.snapshot.trans shows⟩

/-- The event is answered: it has been processed. -/
theorem exists_answers : ∃ readings chronicle t,
    program.Answers readings s (.send event) (.ok .processed) chronicle t := by
  obtain ⟨raised, left, performs⟩ := finishing.performs
  obtain ⟨_, acts⟩ := (carries_acted finishing.idle finishing.running rfl finishing.handled
    finishing.isPlan performs).exists_brings
  obtain ⟨after, isPublished, _⟩ := finishing.exists_published raised default
  have commits := (onward_processed left isPublished).brings
  obtain ⟨_, t, carries, _⟩ := finishing.exists_carries left isPublished
  obtain ⟨_, answers⟩ := carries.exists_brings
  exact ⟨_, _, t, (acts.append commits).append answers⟩

/-- There is no other answer, at whatever readings of the clock. -/
theorem answer_eq (answers : program.Answers readings s (.send event) answer chronicle t) :
    answer = .ok .processed ∧ program.Finished plan context t := by
  obtain ⟨raised, left, performs⟩ := finishing.performs
  have acted := carries_acted finishing.idle finishing.running rfl finishing.handled
    finishing.isPlan performs
  obtain ⟨later, _, _, onward⟩ := acted.split (by simp [Thread.stepping]) answers
  cases later with
  | nil =>
      have isWork := (Standing.does_inj (onward fun _ => .done ()).1).2
      simp [Thread.stepping] at isWork
  | cons now later =>
      obtain ⟨after, isPublished, _⟩ := finishing.exists_published raised now
      obtain ⟨_, _, rest⟩ := onward.tail (onward_processed left isPublished) fun _ => .done ()
      obtain ⟨_, u, carries, finished⟩ := finishing.exists_carries left isPublished
      obtain ⟨rfl, _, rfl⟩ := carries.answer_eq rest
      exact ⟨rfl, finished⟩

end Finishing

end Event

/-- Where nobody listens and no signal waits, what follows a commit is the answer. -/
theorem carries_unheard (unheard : s.1.listeners = []) (noQueue : s.1.queue = [])
    (noStop : s.1.pendingStop = none) (first : Option Delivery)
    (failure : Option InterpreterError) :
    program.Carries s (Thread.telling s.1.listeners s.1.snapshot first failure) []
      (s.1.release.1, s.2) fun next =>
        [.client (next (Drain.result ⟨first, failure, fun _ => ()⟩))] := by
  rw [unheard]
  have ends : ∀ now, program.Onward now s (Thread.telling [] s.1.snapshot first failure) []
      fun next => s.does (Thread.draining first failure next) := fun _ _ => ⟨rfl, rfl⟩
  exact (Carries.single ends).trans
    (.single fun now => onward_draining_nil noQueue noStop now first failure)

end Program

end Statechart
