import Statechart.Proofs.Sorties
import Mathlib.Data.List.DropRight

/-!
# The predator's flag

The flag is set and cleared by the events that come, not by the posts. Where signals alone drive
the mission it tells whether a predator is being tracked or countered. Where tracking escalates
after a delay a predator may leave the tracking perimeter without the mission leaving its post,
and then the flag is down until the mission is back on patrol and detects the next.
-/

namespace Statechart

/-- The latest steps, back to the first whose snapshot does not pass. -/
def latest (test : Snapshot → Bool) (steps : List Commitment) : List Commitment :=
  steps.rtakeWhile fun commitment => test commitment.snapshot

section

variable {test : Snapshot → Bool} {steps : List Commitment} {commitment : Commitment}

theorem latest_concat_of_pass (passes : test commitment.snapshot = true) :
    latest test (steps ++ [commitment]) = latest test steps ++ [commitment] :=
  List.rtakeWhile_concat_pos _ _ _ passes

theorem latest_concat_of_fail (fails : test commitment.snapshot = false) :
    latest test (steps ++ [commitment]) = [] :=
  List.rtakeWhile_concat_neg _ _ _ (by simp [fails])

end

namespace Mission

/-- A predator is being tracked or countered. -/
def isAlarmed (snapshot : Snapshot) : Bool := snapshot.isAt "Deployed.Main.Predator Detected"

def isCalm (snapshot : Snapshot) : Bool := !isAlarmed snapshot

/-- What the flag tells of a mission that has taken some steps and is running. -/
structure FlagTells (variant : MissionVariant) (steps : List Commitment) (snapshot : Snapshot) :
    Prop where
  known : ∃ flag, snapshot.context.bool? predatorKey = some flag
  eventDriven : variant = .eventDriven →
    (snapshot.context.bool? predatorKey = some true ↔ isAlarmed snapshot = true)
  /-- No predator has left the tracking perimeter since the alarm. -/
  alarmed : variant = .timedEscalation → isAlarmed snapshot = true →
    (snapshot.context.bool? predatorKey = some true ↔
      ∀ commitment ∈ latest isAlarmed steps,
        commitment.step.event ≠ predatorLeavingTrackingPerimeter)
  /-- The alarm was not ended by a predator that left the safe area. -/
  calm : variant = .timedEscalation → isAlarmed snapshot = false →
    (∀ commitment ∈ latest isCalm steps, commitment.step.event ≠ predatorLeavingSafeArea) →
      snapshot.context.bool? predatorKey = some false

/-- How a post and the flag follow from the steps that have been taken. -/
structure Watched (variant : MissionVariant) (post : Post) (flag : Bool)
    (steps : List Commitment) : Prop where
  alarmed : post.isAlarmed = true → latest isCalm steps = [] ∧
    (flag = true ↔ ∀ commitment ∈ latest isAlarmed steps,
      commitment.step.event ≠ predatorLeavingTrackingPerimeter)
  calm : post.isAlarmed = false → latest isAlarmed steps = [] ∧
    (post ≠ .crashed →
      (∀ commitment ∈ latest isCalm steps, commitment.step.event ≠ predatorLeavingSafeArea) →
        flag = false)
  eventDriven : variant = .eventDriven → post ≠ .crashed → flag = post.isAlarmed

variable {variant : MissionVariant} {post next : Post} {flag : Bool} {steps : List Commitment}
variable {commitment : Commitment} {event : String}

theorem watched_initially : Watched variant .off false [] where
  alarmed := by simp [Post.isAlarmed]
  calm _ := ⟨rfl, fun _ _ => rfl⟩
  eventDriven _ _ := rfl

/-- Detection is what raises an alarm, and unless the mission crashes it ends where a predator
leaves. With signals alone to drive the mission, it ends where one leaves the tracking perimeter. -/
theorem Post.alarms (handled : post.next? variant event = some next) :
    (event = predatorDetected ↔ post.isAlarmed = false ∧ next.isAlarmed = true) ∧
      (next ≠ .crashed →
        (post.isAlarmed = true ∧ next.isAlarmed = false →
          event = predatorLeavingTrackingPerimeter ∨ event = predatorLeavingSafeArea) ∧
        (variant = .eventDriven → (event = predatorLeavingTrackingPerimeter ↔
          post.isAlarmed = true ∧ next.isAlarmed = false))) := by
  cases variant <;> cases post <;> simp only [next?] at handled <;> repeat' split at handled
  -- in every case that is left the signal is known
  all_goals cases handled <;> subst_vars <;> decide

namespace Leads

variable (leads : Leads variant post event next)

include leads

theorem ne_crashed : post ≠ .crashed := by
  cases leads with
  | signal handled => rintro rfl; cases handled
  | escalation => rintro ⟨⟩

theorem detects :
    event = predatorDetected ↔ post.isAlarmed = false ∧ next.isAlarmed = true := by
  cases leads with
  | signal handled => exact (Post.alarms handled).1
  | escalation isTimed unknown =>
      have notDetected : event ≠ predatorDetected := fun same => unknown (same ▸ by decide)
      simp [notDetected, Post.isAlarmed]

theorem calms (goesOn : next ≠ .crashed) (wasAlarmed : post.isAlarmed = true)
    (isCalm : next.isAlarmed = false) :
    event = predatorLeavingTrackingPerimeter ∨ event = predatorLeavingSafeArea := by
  cases leads with
  | signal handled => exact ((Post.alarms handled).2 goesOn).1 ⟨wasAlarmed, isCalm⟩
  | escalation => cases isCalm

theorem flagOn_eq (isDriven : variant = .eventDriven) (goesOn : next ≠ .crashed) :
    flagOn event post.isAlarmed = next.isAlarmed := by
  cases leads with
  | signal handled =>
      obtain ⟨raises, ends⟩ := Post.alarms handled
      have ends := (ends goesOn).2 isDriven
      unfold flagOn
      split
      · next isDetected => exact (raises.1 isDetected).2.symm
      · next notDetected =>
        split
        · next isLeaving => exact (ends.1 isLeaving).2.symm
        · next notLeaving =>
          -- neither raised nor ended, an alarm stays
          rw [raises] at notDetected
          rw [ends] at notLeaving
          cases wasAlarmed : post.isAlarmed <;> cases isAlarmed : next.isAlarmed <;> simp_all
  | escalation isTimed => cases isTimed.symm.trans isDriven

end Leads

theorem Watched.initial (calm : isAlarmed commitment.snapshot = false) :
    Watched variant .off false (steps ++ [commitment]) where
  alarmed isAlarm := by cases isAlarm
  calm _ := ⟨latest_concat_of_fail calm, fun _ _ => rfl⟩
  eventDriven _ _ := rfl

/-- What a step makes of the post and of the flag follows from the steps again. -/
theorem Watched.step (watched : Watched variant post flag steps)
    (leads : Leads variant post event next) (isEvent : commitment.step.event = event)
    (shows : isAlarmed commitment.snapshot = next.isAlarmed) :
    Watched variant next (flagOn event flag) (steps ++ [commitment]) where
  alarmed isAlarm := by
    have notCalm : isCalm commitment.snapshot = false := by simp [isCalm, shows, isAlarm]
    refine ⟨latest_concat_of_fail notCalm, ?_⟩
    rw [latest_concat_of_pass (shows.trans isAlarm)]
    cases wasAlarmed : post.isAlarmed with
    | true =>
        have notDetected : event ≠ predatorDetected := fun isDetected => by
          cases wasAlarmed.symm.trans (leads.detects.1 isDetected).1
        have tells := (watched.alarmed wasAlarmed).2
        simp only [List.mem_append, List.mem_singleton, or_imp, forall_and, forall_eq, ← tells,
          isEvent]
        by_cases isLeaving : event = predatorLeavingTrackingPerimeter
        · simp [isLeaving]
        · simp [flagOn_of_ne notDetected isLeaving, isLeaving]
    | false =>
        have isDetected := leads.detects.2 ⟨wasAlarmed, isAlarm⟩
        rw [(watched.calm wasAlarmed).1, isDetected, flagOn_detected]
        simp [isEvent, isDetected, predatorDetected, predatorLeavingTrackingPerimeter]
  calm isCalmNow := by
    have notAlarmed : isAlarmed commitment.snapshot = false := shows.trans isCalmNow
    refine ⟨latest_concat_of_fail notAlarmed, fun goesOn none => ?_⟩
    have passes : isCalm commitment.snapshot = true := by simp [isCalm, notAlarmed]
    rw [latest_concat_of_pass passes] at none
    have notSafeArea : event ≠ predatorLeavingSafeArea := isEvent ▸ none commitment (by simp)
    have notDetected : event ≠ predatorDetected := fun isDetected => by
      cases isCalmNow.symm.trans (leads.detects.1 isDetected).2
    cases wasAlarmed : post.isAlarmed with
    | true =>
        have isLeaving := (leads.calms goesOn wasAlarmed isCalmNow).resolve_right notSafeArea
        rw [isLeaving, flagOn_leaving]
    | false =>
        have wasDown := (watched.calm wasAlarmed).2 leads.ne_crashed fun earlier member =>
          none earlier (List.mem_append_left _ member)
        simp [flagOn, notDetected, wasDown]
  eventDriven isDriven goesOn := by
    rw [watched.eventDriven isDriven leads.ne_crashed]
    exact leads.flagOn_eq isDriven goesOn

section Runs

variable {σ Listener : Type} {variant : MissionVariant} {escalation : Duration}
variable {listen : Listener → Snapshot → Routine σ Listener Unit} {limit : Option UInt64}
variable {memory : σ} {code : Routine σ Listener Unit} {chronicle : Chronicle Listener}
variable {execution : Execution σ Listener}

theorem isAlarmed_of_value {snapshot : Snapshot} {post : Post}
    (shows : snapshot.value =
      Configuration.value (chart variant escalation).toStateTree post.active) :
    isAlarmed snapshot = post.isAlarmed := by
  rw [isAlarmed, Snapshot.isAt, shows]
  exact (value_chart variant escalation post).1

/-- Where a mission stands, what its flag is and what has led to both. -/
theorem exists_watched (positive : escalation ≠ .zero)
    (run : (program variant escalation listen).RunsTo
      (.ofClient (.fresh (chart variant escalation) limit) memory code) chronicle execution) :
    ∃ post flag, execution.interpreter.configuration = post.active ∧
      execution.interpreter.context.bool? predatorKey = some flag ∧
      Watched variant post flag (Chronicle.commitments chronicle) :=
  induct_posts (Watched variant) positive run watched_initially
    (fun shows => .initial (isAlarmed_of_value shows))
    fun leads shows watched => watched.step leads rfl (isAlarmed_of_value shows)

/-- Where the signals of a mission that nobody listens to lead, and what they make of the flag. -/
theorem exists_sortie_shown {events : List String} {last : Post} (positive : escalation ≠ .zero)
    (listen : Listener → Snapshot → Routine σ Listener Unit) (limit : Option UInt64) (memory : σ)
    (leads : Post.off.through? variant events = some last) (goesOn : last ≠ .crashed) :
    ∃ chronicle execution, (program variant escalation listen).RunsTo
        (.ofClient (.fresh (chart variant escalation) limit) memory (sortie events)) chronicle
        execution ∧
      execution.interpreter.isRunning = true ∧
      isAlarmed execution.interpreter.snapshot = last.isAlarmed ∧
      execution.interpreter.snapshot.context.bool? predatorKey =
        some (events.foldl (fun flag event => flagOn event flag) false) := by
  obtain ⟨chronicle, s, run, stationed⟩ := exists_sortie escalation listen limit memory
    leads goesOn
  have shown := shown_of_runsTo positive run
  have isAlarm := isAlarmed_of_value
    (shown.value.trans (congrArg (Configuration.value _) stationed.stands))
  have isRunning : s.1.isRunning = true := by simp [Interpreter.isRunning, stationed.running]
  have isFlag := (congrArg (·.bool? predatorKey) shown.context).trans stationed.known
  exact ⟨_, _, run, isRunning, isAlarm, isFlag⟩

/-- A mission can always be built and its interpreter made, and in every run of it the flag tells
while the machine is running. -/
theorem flag_tells (positive : escalation ≠ .zero)
    (listen : Listener → Snapshot → Routine σ Listener Unit) (limit : Option UInt64) (memory : σ)
    (code : Routine σ Listener Unit) :
    (spec variant escalation).build = .ok (program variant escalation listen).definition ∧
      (program variant escalation listen).interpreter limit =
        .ok (.fresh (chart variant escalation) limit) ∧
      ∀ chronicle execution, (program variant escalation listen).RunsTo
          (.ofClient (.fresh (chart variant escalation) limit) memory code) chronicle execution →
        execution.interpreter.isRunning = true →
        FlagTells variant (Chronicle.commitments chronicle) execution.interpreter.snapshot := by
  refine ⟨build_spec positive, interpreter_mission positive limit,
    fun chronicle execution run isRunning => ?_⟩
  obtain ⟨post, flag, stands, known, watched⟩ := exists_watched positive run
  have running : execution.interpreter.lifecycle = .running := by
    simpa [Interpreter.isRunning] using isRunning
  have notCrashed := (crashed_of_runsTo positive run stands).1 running
  have shown := shown_of_runsTo positive run
  have shows := isAlarmed_of_value (shown.value.trans (congrArg (Configuration.value _) stands))
  rw [← shown.context] at known
  refine ⟨⟨flag, known⟩, fun isDriven => ?_, fun _ alarmed => ?_, fun _ calm none => ?_⟩
  · rw [known, shows, watched.eventDriven isDriven notCrashed, Option.some.injEq]
  · rw [known, Option.some.injEq]
    exact (watched.alarmed (shows.symm.trans alarmed)).2
  · rw [known, (watched.calm (shows.symm.trans calm)).2 notCrashed none]

end Runs

/-- The flag is up once a predator has been detected, where signals alone drive the mission. -/
theorem flag_tells_of_detecting : defaultEscalation ≠ .zero ∧
    ∃ chronicle execution, (program .eventDriven defaultEscalation unheeding).RunsTo
        (.ofClient (.fresh (chart .eventDriven defaultEscalation) none) () (sortie detecting))
        chronicle execution ∧
      execution.interpreter.isRunning = true ∧
      isAlarmed execution.interpreter.snapshot = true ∧
      execution.interpreter.snapshot.context.bool? predatorKey = some true ∧
      FlagTells .eventDriven (Chronicle.commitments chronicle) execution.interpreter.snapshot := by
  have positive : defaultEscalation ≠ .zero := by decide
  have leads : Post.off.through? .eventDriven detecting = some .tracking := by decide
  obtain ⟨chronicle, execution, run, isRunning, alarmed, isFlag⟩ :=
    exists_sortie_shown positive unheeding none () leads (by decide)
  have isUp : detecting.foldl (fun flag event => flagOn event flag) false = true := by decide
  have tells := (flag_tells positive unheeding none () (sortie detecting)).2.2 _ _ run isRunning
  exact ⟨positive, _, _, run, isRunning, alarmed, isFlag.trans (congrArg some isUp), tells⟩

/-- Where tracking escalates after a delay, a predator that leaves the tracking perimeter lowers
the flag while the mission goes on tracking. -/
theorem flag_down_while_tracking : defaultEscalation ≠ .zero ∧
    ∃ chronicle execution, (program .timedEscalation defaultEscalation unheeding).RunsTo
        (.ofClient (.fresh (chart .timedEscalation defaultEscalation) none) ()
          (sortie (detecting ++ [predatorLeavingTrackingPerimeter]))) chronicle execution ∧
      execution.interpreter.isRunning = true ∧
      ¬ (execution.interpreter.snapshot.context.bool? predatorKey = some true ↔
        execution.interpreter.snapshot.isAt "Deployed.Main.Predator Detected" = true) := by
  have positive : defaultEscalation ≠ .zero := by decide
  have leads : Post.off.through? .timedEscalation
      (detecting ++ [predatorLeavingTrackingPerimeter]) = some .tracking := by decide
  obtain ⟨chronicle, execution, run, isRunning, alarmed, isFlag⟩ :=
    exists_sortie_shown positive unheeding none () leads (by decide)
  have isDown : (detecting ++ [predatorLeavingTrackingPerimeter]).foldl
      (fun flag event => flagOn event flag) false = false := by decide
  rw [isDown] at isFlag
  refine ⟨positive, _, _, run, isRunning, fun tells => ?_⟩
  cases isFlag.symm.trans (tells.2 alarmed)

end Mission

end Statechart
