import Statechart.Proofs.Sorties

/-!
# The crash of a mission

Wherever a deployed mission stands, whoever listens to it and whatever timer is armed, a crash is
processed and ends it for good.
-/

namespace Statechart

namespace Mission

open Program

variable {σ Listener : Type} {variant : MissionVariant} {escalation : Duration}
variable {listen : Listener → Snapshot → Routine σ Listener Unit} {limit : Option UInt64}
variable {memory : σ} {code : Routine σ Listener Unit} {chronicle : Chronicle Listener}
variable {execution : Execution σ Listener}

/-- The mission has crashed, and whatever is requested of it, and by whomever, it stays so. -/
structure CrashedForGood (mission : Program σ Listener) (s : Standing σ Listener) : Prop where
  value : s.1.snapshot.value = .leaf "Crashed"
  status : s.1.snapshot.status = .done
  disarmed : s.1.timers.armed = []
  stays : ∀ code chronicle execution,
    mission.RunsTo (s.does [.client code]) chronicle execution →
      execution.overflowed = false ∧
      execution.interpreter.snapshot = s.1.snapshot ∧
      execution.interpreter.history = s.1.history ∧
      execution.interpreter.nextDeadline? = s.1.nextDeadline?

/-- A mission that shows that it is deployed runs and is at a post where it is. -/
theorem deployed_of_runsTo (positive : escalation ≠ .zero)
    (run : (program variant escalation listen).RunsTo
      (.ofClient (.fresh (chart variant escalation) limit) memory code) chronicle execution)
    (inRange : execution.overflowed = false)
    (lasts : execution.interpreter.lifecycle ≠ .stopped)
    (deployed : execution.interpreter.snapshot.isAt "Deployed" = true) :
    execution.interpreter.isRunning = true ∧ ∃ (post : Post) (flag : Bool), post.isDeployed = true ∧
      execution.interpreter.configuration = post.active ∧
      execution.interpreter.context.bool? predatorKey = some flag := by
  obtain ⟨post, flag, stands, known, _⟩ := induct_posts (fun _ _ _ => True) positive run trivial
    (fun _ => trivial) fun _ _ _ => trivial
  have shown := shown_of_runsTo positive run
  have shows : ∀ {other : Post}, execution.interpreter.configuration = other.active →
      other.isDeployed = true := by
    intro other isOther
    rw [Snapshot.isAt, shown.value, isOther] at deployed
    exact (value_chart variant escalation other).2.1.symm.trans deployed
  refine ⟨?_, post, flag, shows stands, stands, known⟩
  have begins := begins_fresh variant listen positive limit
  obtain ⟨_, situated, _⟩ := Reachable.booked ⟨_, _, _, begins, run.steps⟩ inRange
  cases lifecycle : execution.interpreter.lifecycle with
  | running => simp [Interpreter.isRunning, lifecycle]
  | stopped => exact absurd lifecycle lasts
  | notStarted =>
      have isInitial := (situated.settled.tidy.unstarted lifecycle).2
      cases shows (isInitial.trans (initialConfiguration_chart variant escalation))
  | done =>
      have isCrashed := (crashed_of_runsTo positive run stands).2 lifecycle
      rw [isCrashed] at stands
      cases shows stands

theorem finishing_crash (escalation : Duration)
    (listen : Listener → Snapshot → Routine σ Listener Unit) {s : Standing σ Listener}
    {post : Post} {flag : Bool} (idle : s.Idle) (running : s.1.isRunning = true)
    (isDeployed : post.isDeployed = true) (stands : s.1.configuration = post.active)
    (known : s.1.context.bool? predatorKey = some flag) :
    ∃ plan context, plan.configuration = Post.crashed.active ∧
      (program variant escalation listen).Finishing s crashedDetected plan context := by
  have handled : post.next? variant crashedDetected = some .crashed :=
    Post.next?_crashed isDeployed
  obtain ⟨selected, plan, context, isPlan, leads, performs, _⟩ := exists_performed
    escalation listen stands known handled s.2
  have elsewhere : 17 ∉ plan.entered := by
    intro isEntered
    have isActive : 17 ∈ plan.configuration := by
      rw [← isPlan] at isEntered ⊢
      exact Definition.mem_after.2 (.inr isEntered)
    rw [leads] at isActive
    exact absurd isActive (by decide)
  have nothing : (chart variant escalation).timersOf plan.entered = [] := timersOf_chart elsewhere
  have isFinal : Configuration.isInFinal (chart variant escalation).toStateTree plan.configuration
      StateTree.root = true := by
    rw [leads]
    exact isInFinal_chart variant escalation .crashed
  have arms : ∀ timers : Timers,
      (timers.armAll ((chart variant escalation).timersOf plan.entered)).2 = true := by
    intro timers
    rw [nothing]
    rfl
  exact ⟨plan, context, leads, idle, running, selected, isPlan, ⟨_, _, performs⟩, arms, isFinal⟩

/-- A mission that an event has ended stays so. -/
theorem crashedForGood_of_finished {s t : Standing σ Listener} {plan : Plan} {context : Context}
    {readings : List Timestamp} {event : String} {answer : Except InterpreterError Delivery}
    (situated : ∀ code, (program variant escalation listen).Situated .outside
      (s.does [.client code]))
    (booked : (program variant escalation listen).Booked .outside s.1)
    (answers : (program variant escalation listen).Answers readings s (.send event) answer
      chronicle t)
    (leads : plan.configuration = Post.crashed.active)
    (finished : (program variant escalation listen).Finished plan context t) :
    CrashedForGood (program variant escalation listen) t := by
  have isOver : t.1.IsOver := .inl finished.isDone
  have disarmed := answers.halted situated booked isOver.isRunning_eq
  have noDeadline : ∀ {i : Interpreter Listener}, i.timers.armed = [] → i.nextDeadline? = none :=
    fun nothing => by simp [Interpreter.nextDeadline?, Timers.nextDeadline?, nothing, Timers.first?]
  have shows := finished.snapshot
  rw [leads] at shows
  refine ⟨?_, by rw [shows], disarmed, fun code chronicle execution run => ?_⟩
  · rw [shows]
    exact (value_chart variant escalation .crashed).2.2 rfl
  · obtain ⟨sameRange, unmoved⟩ := run.unmoved isOver
    have stillOver := unmoved.isOver isOver
    have whole := (answers.runsTo fun _ => code).trans run
    have stillDisarmed := whole.disarmed sameRange (situated _) booked stillOver.not_running
    exact ⟨sameRange, unmoved.snapshot, unmoved.history,
      (noDeadline stillDisarmed).trans (noDeadline disarmed).symm⟩

/-- A mission can always be built and its interpreter made. Between two requests a crash is
processed while it shows that it is deployed, and the mission is over for good. -/
theorem crash_ends_mission (positive : escalation ≠ .zero)
    (listen : Listener → Snapshot → Routine σ Listener Unit) (limit : Option UInt64) (memory : σ)
    (code : Routine σ Listener Unit) :
    (spec variant escalation).build = .ok (program variant escalation listen).definition ∧
      (program variant escalation listen).interpreter limit =
        .ok (.fresh (chart variant escalation) limit) ∧
      ∀ chronicle execution, (program variant escalation listen).RunsTo
          (.ofClient (.fresh (chart variant escalation) limit) memory code) chronicle execution →
        execution.overflowed = false → execution.interpreter.busy = false →
        execution.interpreter.lifecycle ≠ .stopped →
        execution.interpreter.snapshot.isAt "Deployed" = true →
        (∃ readings happened after, (program variant escalation listen).Answers readings
          execution.standing (.send crashedDetected) (.ok .processed) happened after) ∧
        ∀ readings answer happened after, (program variant escalation listen).Answers readings
            execution.standing (.send crashedDetected) answer happened after →
          answer = .ok .processed ∧ CrashedForGood (program variant escalation listen) after := by
  refine ⟨build_spec positive, interpreter_mission positive limit,
    fun chronicle execution run inRange isIdle lasts deployed => ?_⟩
  have begins := begins_fresh variant listen positive limit
  have reachable : (program variant escalation listen).Reachable execution :=
    ⟨_, _, _, begins, run.steps⟩
  obtain ⟨running, post, flag, isDeployed, stands, known⟩ :=
    deployed_of_runsTo positive run inRange lasts deployed
  obtain ⟨_, booked, idle⟩ := reachable.driven inRange isIdle running (.done ())
  obtain ⟨plan, context, leads, finishing⟩ := finishing_crash escalation listen idle
    running isDeployed stands known
  refine ⟨finishing.exists_answers, fun readings answer happened after answers => ?_⟩
  obtain ⟨isProcessed, finished⟩ := finishing.answer_eq answers
  exact ⟨isProcessed, crashedForGood_of_finished
    (fun code => (reachable.driven inRange isIdle running code).1) booked answers leads finished⟩

/-- A mission that tracks a predator crashes. -/
theorem crash_ends_tracking : defaultEscalation ≠ .zero ∧
    ∃ chronicle execution, (program .timedEscalation defaultEscalation unheeding).RunsTo
        (.ofClient (.fresh (chart .timedEscalation defaultEscalation) none) () (sortie detecting))
        chronicle execution ∧
      execution.overflowed = false ∧ execution.interpreter.busy = false ∧
      execution.interpreter.lifecycle ≠ .stopped ∧
      execution.interpreter.snapshot.isAt "Deployed" = true ∧
      ∃ readings happened after, (program .timedEscalation defaultEscalation unheeding).Answers
          readings execution.standing (.send crashedDetected) (.ok .processed) happened after ∧
        CrashedForGood (program .timedEscalation defaultEscalation unheeding) after := by
  have positive : defaultEscalation ≠ .zero := by decide
  have leads : Post.off.through? .timedEscalation detecting = some .tracking := by decide
  obtain ⟨chronicle, s, run, stationed⟩ := exists_sortie defaultEscalation unheeding none ()
    leads (by decide)
  have shown := shown_of_runsTo positive run
  have isIdle : s.1.busy = false := stationed.alone.idle.busy
  have lasts : s.1.lifecycle ≠ .stopped := by simp [stationed.running]
  have deployed : s.1.snapshot.isAt "Deployed" = true := by
    have shows := shown.value.trans (congrArg (Configuration.value _) stationed.stands)
    rw [Snapshot.isAt]
    exact (congrArg (·.isAt "Deployed") shows).trans (value_chart _ _ .tracking).2.1
  obtain ⟨⟨readings, happened, after, answers⟩, only⟩ := (crash_ends_mission positive unheeding none
    () (sortie detecting)).2.2 _ _ run rfl isIdle lasts deployed
  exact ⟨positive, _, _, run, rfl, isIdle, lasts, deployed, readings, happened, after, answers,
    (only _ _ _ _ answers).2⟩

end Mission

end Statechart
