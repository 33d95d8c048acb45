import Statechart.Proofs.Ending
import Statechart.Proofs.LegalRuns

/-!
# Subscriptions

A stop detaches every subscriber. A machine that is stopped takes no new ones, so nobody is
subscribed to it ever again. A machine that was done before is detached too, but it stays
done: whoever subscribes to it after its stop is registered.
-/

namespace Statechart

variable {σ Listener : Type}

namespace Execution

variable {program : Program σ Listener} {now : Timestamp} {before after : Execution σ Listener}

/-- Whoever has the turn subscribes. -/
def Subscribes (execution : Execution σ Listener) : Prop :=
  ∃ listener, execution.Requests (.subscribe listener)

/-- To a machine that is done everyone can subscribe. -/
theorem Subscribes.count_pos (subscribes : before.Subscribes)
    (isDone : before.interpreter.lifecycle = .done)
    (steps : before.step? program now = some after) : 0 < after.interpreter.subscriberCount := by
  obtain ⟨listener, requests⟩ := subscribes
  obtain ⟨rest, resume, rfl⟩ := requests.step_eq steps
  simp [meet, Interpreter.subscribe, Interpreter.subscriberCount, isDone]

/-- Nobody comes to a machine that is over without subscribing. -/
theorem Subsides.listeners_eq_nil (subsides : before.Subsides after)
    (nobody : before.interpreter.listeners = []) (stays : ¬ before.Subscribes) :
    after.interpreter.listeners = [] := by
  rcases subsides.subscribers with same | ⟨request, requests, same⟩
  · rw [same, nobody]
  · rw [same]
    cases request with
    | stop =>
        cases lifecycle : before.interpreter.lifecycle <;>
          cases busy : before.interpreter.busy <;>
            simp [Interpreter.afterRequest, Interpreter.stop, lifecycle, busy, nobody]
    | subscribe listener => exact absurd ⟨listener, requests⟩ stays
    | unsubscribe number => simp [Interpreter.afterRequest, Interpreter.unsubscribe, nobody]
    | start | send | advance | can | look => exact nobody

end Execution

/-- Nobody is subscribed to a machine that has been stopped. -/
def Interpreter.Detached (interpreter : Interpreter Listener) : Prop :=
  interpreter.lifecycle = .stopped → interpreter.listeners = []

/-- A stop detaches every subscriber. -/
theorem Interpreter.Detached.stop {i : Interpreter Listener} (detached : i.Detached) :
    i.stop.1.listeners = [] := by
  cases lifecycle : i.lifecycle with
  | stopped => simp [Interpreter.stop, lifecycle, detached lifecycle]
  | notStarted | running | done =>
      cases busy : i.busy <;> simp [Interpreter.stop, lifecycle, busy]

namespace Program

variable {program : Program σ Listener} {now : Timestamp} {phase next : Phase σ Listener}
variable {i after : Interpreter Listener} {happenings : Chronicle Listener}

theorem Move.detached (move : program.Move now phase i happenings next after)
    (detached : i.Detached) : after.Detached := by
  cases move with
  | begin => intro isStopped; cases isStopped
  | stop => exact fun _ => detached.stop
  | subscribe =>
      intro isStopped
      have wasStopped : i.lifecycle = .stopped := isStopped
      simp [Interpreter.subscribe, wasStopped, detached wasStopped]
  | unsubscribe =>
      intro isStopped
      simp [Interpreter.unsubscribe, detached isStopped]
  | publish isPublished =>
      rcases (Interpreter.published_of_commit isPublished).outcome with
        ⟨_, _, ⟨isDone, _⟩ | ⟨isRunning, _⟩⟩
      · intro isStopped
        cases isDone.symm.trans isStopped
      · intro isStopped
        cases isRunning.symm.trans isStopped
  | abandon =>
      intro isStopped
      apply detached
      cases lifecycle : i.lifecycle <;>
        simp [Interpreter.abandonStart, Interpreter.release, lifecycle] at isStopped ⊢
  | _ => exact detached

theorem Begins.listeners_eq_nil (begins : program.Begins i) : i.listeners = [] := by
  obtain ⟨_, _, _, _, rfl⟩ := begins.exists_assemble
  rfl

theorem Reachable.detached {execution : Execution σ Listener}
    (reachable : program.Reachable execution) : execution.interpreter.Detached := by
  obtain ⟨interpreter, memory, code, begins, steps⟩ := reachable
  obtain ⟨chronicle, run⟩ := exists_runsTo steps
  obtain ⟨last, timers, inside, inRange, same⟩ := run.exists_inRange (situated_ofClient begins)
  have detached : last.interpreter.Detached := by
    obtain ⟨_, _, holds⟩ := inside.induct (fun _ i _ => i.Detached) inRange
      (situated_ofClient begins) (fun _ => begins.listeners_eq_nil)
      fun _ move detached => move.detached detached
    exact holds
  rw [same]
  exact detached

section Run

variable {before stopped : Execution σ Listener} {later : List (Execution σ Listener)}

/-- The steps of a run lead from its start to every point of it. -/
theorem steps_of_isChain {start execution : Execution σ Listener}
    (run : (start :: later).IsChain program.Step) (member : execution ∈ start :: later) :
    Relation.ReflTransGen program.Step start execution := by
  induction later generalizing start with
  | nil =>
      obtain rfl := List.mem_singleton.1 member
      exact .refl
  | cons next later ih =>
      obtain ⟨step, run⟩ := List.isChain_cons_cons.1 run
      rcases List.mem_cons.1 member with rfl | member
      · exact .refl
      · exact .head step (ih run member)

/-- To a machine that is stopped nobody is subscribed ever after. -/
theorem detached_along_run (reachable : program.Reachable stopped)
    (isStopped : stopped.interpreter.lifecycle = .stopped)
    (run : (stopped :: later).IsChain program.Step) :
    ∀ execution ∈ stopped :: later, execution.interpreter.subscriberCount = 0 := by
  intro execution member
  have onward := steps_of_isChain run member
  have detached := (reachable.trans onward).detached
  obtain ⟨_, toExecution⟩ := exists_runsTo onward
  obtain ⟨_, unmoved⟩ := toExecution.unmoved (.inr isStopped)
  simp [Interpreter.subscriberCount, detached (unmoved.lifecycle.trans isStopped)]

/-- To a machine that is done and has no subscribers nobody is subscribed as long as nobody
subscribes. -/
theorem unsubscribed_along_run_iff (isDone : stopped.interpreter.lifecycle = .done)
    (nobody : stopped.interpreter.listeners = [])
    (run : (stopped :: later).IsChain program.Step) :
    (∀ execution ∈ stopped :: later, execution.interpreter.subscriberCount = 0) ↔
      (stopped :: later).IsChain fun before _ => ¬ before.Subscribes := by
  induction later generalizing stopped with
  | nil => simp [Interpreter.subscriberCount, nobody]
  | cons next later ih =>
      obtain ⟨⟨now, step⟩, run⟩ := List.isChain_cons_cons.1 run
      have subsides := subsides_of_over (.inl isDone) step
      have stillDone := subsides.unmoved.lifecycle.trans isDone
      rw [List.isChain_cons_cons]
      constructor
      · intro none
        have stays : ¬ stopped.Subscribes := by
          intro subscribes
          have some := subscribes.count_pos isDone step
          rw [none next (.tail _ (.head _))] at some
          cases some
        have stillNobody := subsides.listeners_eq_nil nobody stays
        exact ⟨stays, (ih stillDone stillNobody run).1 fun execution member =>
          none execution (.tail _ member)⟩
      · rintro ⟨stays, chain⟩ execution member
        have stillNobody := subsides.listeners_eq_nil nobody stays
        rcases List.mem_cons.1 member with rfl | member
        · simp [Interpreter.subscriberCount, nobody]
        · exact (ih stillDone stillNobody run).2 chain execution member

/-- After a stop nobody is subscribed at any point, whatever is requested and by whomever,
exactly if the machine was not done before or nobody subscribes any more. -/
theorem nobody_subscribed_after_stop_iff (reachable : program.Reachable before)
    (requests : before.Requests .stop)
    (run : (before :: stopped :: later).IsChain program.Step) :
    (∀ execution ∈ stopped :: later, execution.interpreter.subscriberCount = 0) ↔
      before.interpreter.lifecycle ≠ .done ∨
        (stopped :: later).IsChain fun before _ => ¬ before.Subscribes := by
  obtain ⟨step, run⟩ := List.isChain_cons_cons.1 run
  have reachableToo := reachable.trans (.single step)
  have nobody := reachable.detached.stop
  have lifecycle := before.interpreter.lifecycle_stop
  obtain ⟨now, step⟩ := step
  obtain ⟨rest, resume, rfl⟩ := requests.step_eq step
  by_cases isDone : before.interpreter.lifecycle = .done
  · rw [if_pos isDone] at lifecycle
    rw [unsubscribed_along_run_iff lifecycle nobody run]
    simp [isDone]
  · rw [if_neg isDone] at lifecycle
    have detached := detached_along_run reachableToo lifecycle run
    simp only [isDone, ne_eq, not_false_eq_true, true_or, iff_true]
    exact detached

end Run

/-- Someone starts the booth, stops it and subscribes after that. -/
def lingering : Execution Unit Bool :=
  .ofClient (.fresh MachineSpec.booth.resolved none) () do
    let _ ← Routine.request .start
    let _ ← Routine.request .stop
    let _ ← Routine.request (.subscribe false)

/-- The booth closes on greeting. Once it is stopped, someone subscribes to it still. -/
theorem closed_booth_is_subscribed_to :
    ¬ ((lingering.run (booth ["close"]) default 9).trace (booth ["close"]) default 3).IsChain
      fun before _ => ¬ before.Subscribes := by
  intro stays
  have start : (booth ["close"]).RunsTo lingering _ (lingering.run (booth ["close"]) default 9) :=
    runsTo_run default 9 lingering
  have requests : (lingering.run (booth ["close"]) default 9).Requests .stop := by
    rw [Execution.Requests]
    cbv
  have someone : ((lingering.run (booth ["close"]) default 9).trace (booth ["close"]) default 3).any
      (fun execution => execution.interpreter.subscriberCount = 1) = true := by
    cbv
  have run : List.IsChain (booth ["close"]).Step _ :=
    isChain_trace default 3 (lingering.run (booth ["close"]) default 9)
  obtain ⟨execution, member, subscribed⟩ := List.any_eq_true.1 someone
  obtain ⟨stopped, later, isTrace⟩ := List.exists_cons_of_ne_nil (List.ne_nil_of_mem member)
  rw [isTrace] at run stays member
  have nobody := (nobody_subscribed_after_stop_iff ⟨_, _, _, begins_booth _, start.steps⟩ requests
    run).2 (.inr stays)
  simp [nobody execution member] at subscribed

end Program

end Statechart
