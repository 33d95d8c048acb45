import Statechart.Proofs.Runs

/-!
# Succession

What a small step may leave on the stack in place of the work on top: the same code a little
further on, the step or the pass over the queue that a request calls for, what a step or a pass
leads to, or a notice. A property of pieces of work that is inherited by whatever succeeds them
is kept by every small step, and so work keeps to terms that bind its code, its passes over the
queue and its moves of the clock. In the interpreter, what is active and the reading of the clock
stay as they are except in two small steps: one that publishes a step, and one that moves the
clock.
-/

namespace Statechart

variable {σ Listener : Type}

/-- Code goes on with what it reads or with what it is answered. -/
inductive Routine.Continues {α : Type} : Routine σ Listener α → Routine σ Listener α → Prop
  | read (next : σ → Routine σ Listener α) (memory : σ) : Continues (.read next) (next memory)
  | write (memory : σ) (next : Routine σ Listener α) : Continues (.write memory next) next
  | ask (request : Request Listener) (next : request.Answer → Routine σ Listener α)
      (answer : request.Answer) : Continues (.ask request next) (next answer)

/-- Code comes to a result, for some memory that it reads and some answers that it is given. -/
def Routine.ComesTo {α : Type} (code : Routine σ Listener α) (result : α) : Prop :=
  Relation.ReflTransGen Continues code (.done result)

namespace Work

/-- The code that a piece of work runs goes on. -/
inductive Continues : Work σ Listener → Work σ Listener → Prop
  | client {code next : Routine σ Listener Unit} (onward : code.Continues next) :
      Continues (.client code) (.client next)
  | listening {code next : Routine σ Listener Unit} (onward : code.Continues next) :
      Continues (.listening code) (.listening next)
  | acting (step : RunningStep (Work σ Listener)) (call : Invocation)
      {code next : Routine σ Listener (Except String ActionEffect)}
      (onward : code.Continues next) : Continues (.acting step call code) (.acting step call next)

/-- Whoever asks goes on with the answer. -/
theorem Asks.continues {asking : Work σ Listener} {request : Request Listener}
    {resume : request.Answer → Work σ Listener} (asks : asking.Asks request resume)
    (answer : request.Answer) : asking.Continues (resume answer) := by
  cases asks with
  | client _ next => exact .client (.ask request next answer)
  | listening _ next => exact .listening (.ask request next answer)
  | acting step call _ next => exact .acting step call (.ask request next answer)

/-- What may stand in place of a piece of work after a small step that found it on top. -/
inductive SucceededBy (program : Program σ Listener) (interpreter : Interpreter Listener) :
    Work σ Listener → Work σ Listener → Prop
  | continues {work other : Work σ Listener} (onward : work.Continues other) :
      SucceededBy program interpreter work other
  | notice (work : Work σ Listener) (subscribers : List (Nat × Listener)) (snapshot : Snapshot) :
      SucceededBy program interpreter work (.notifying subscribers snapshot)
  | start {asking : Work σ Listener} {resume : Except InterpreterError Unit → Work σ Listener}
      {step : RunningStep (Work σ Listener)} (asks : asking.Asks .start resume)
      (begun : step.origin = .start resume) : SucceededBy program interpreter asking (.stepping step)
  | send {asking : Work σ Listener} {event : String}
      {resume : Except InterpreterError Delivery → Work σ Listener}
      (asks : asking.Asks (.send event) resume) :
      SucceededBy program interpreter asking (.draining { resume })
  | advance {asking : Work σ Listener} {span limit : Duration}
      {resume : Except InterpreterError Nat → Work σ Listener}
      (asks : asking.Asks (.advance span) resume) (running : interpreter.isRunning = true)
      (reaches : interpreter.now.add? span = some limit) :
      SucceededBy program interpreter asking (.advancing limit 0 resume)
  | tell (subscribers : List (Nat × Listener)) (snapshot : Snapshot) (listener : Listener) :
      SucceededBy program interpreter (.notifying subscribers snapshot)
        (.listening (program.listen listener snapshot))
  | take {drain : Drain (Work σ Listener)} {step : RunningStep (Work σ Listener)}
      {fired : Option (TimerKey × Nat)} (begun : step.origin = .signal fired drain) :
      SucceededBy program interpreter (.draining drain) (.stepping step)
  | note (drain : Drain (Work σ Listener)) (delivery : Delivery) :
      SucceededBy program interpreter (.draining drain) (.draining (drain.note (.ok delivery)))
  | release (drain : Drain (Work σ Listener)) :
      SucceededBy program interpreter (.draining drain) (drain.resume drain.result)
  | skip {step next : RunningStep (Work σ Listener)} (same : next.origin = step.origin) :
      SucceededBy program interpreter (.stepping step) (.stepping next)
  | call {step next : RunningStep (Work σ Listener)} {call : Invocation}
      {action : Action σ Listener} (same : next.origin = step.origin)
      (isAction : program.registry.action? call.action = some action) (given : ActionCall) :
      SucceededBy program interpreter (.stepping step) (.acting next call (action given))
  /-- The step takes effect, or the machine has been stopped and it is discarded. -/
  | commit (step : RunningStep (Work σ Listener)) {delivery : Delivery}
      (heeded : delivery ≠ .ignored) :
      SucceededBy program interpreter (.stepping step)
        (.draining (Execution.drainAfter step.origin delivery))
  | succeed {step next : RunningStep (Work σ Listener)} (call : Invocation)
      (code : Routine σ Listener (Except String ActionEffect)) (same : next.origin = step.origin) :
      SucceededBy program interpreter (.acting step call code) (.stepping next)
  | abandon {step : RunningStep (Work σ Listener)} (call : Invocation)
      (code : Routine σ Listener (Except String ActionEffect)) (error : InterpreterError)
      {resume : Except InterpreterError Unit → Work σ Listener}
      (isStart : step.origin = .start resume) :
      SucceededBy program interpreter (.acting step call code) (resume (.error error))
  | fail {step : RunningStep (Work σ Listener)} (call : Invocation)
      (code : Routine σ Listener (Except String ActionEffect)) (error : InterpreterError)
      {fired : Option (TimerKey × Nat)} {drain : Drain (Work σ Listener)}
      (isSignal : step.origin = .signal fired drain) :
      SucceededBy program interpreter (.acting step call code)
        (.draining (drain.note (.error error)))
  | arrive (limit : Duration) (fired : Nat)
      (resume : Except InterpreterError Nat → Work σ Listener) :
      SucceededBy program interpreter (.advancing limit fired resume) (resume (.ok fired))
  /-- The signal of a timer is refused, or it has to wait. -/
  | tick (limit : Duration) (fired : Nat)
      (resume : Except InterpreterError Nat → Work σ Listener) :
      SucceededBy program interpreter (.advancing limit fired resume)
        (.advancing limit (fired + 1) resume)
  /-- The signal of a timer begins a pass over the queue. -/
  | fire {limit : Duration} {fired : Nat} {resume : Except InterpreterError Nat → Work σ Listener}
      {drain : Drain (Work σ Listener)}
      (onward : ∀ result, drain.resume result = .advancing limit (fired + 1) resume ∨
        ∃ error, drain.resume result = resume (.error error)) :
      SucceededBy program interpreter (.advancing limit fired resume) (.draining drain)

end Work

/-- What the code of clients, of listeners and of actions has to be like, how far the clock may be
moved, and the results that passes over the queue may come to: when no step is in progress, and
when one is. -/
structure Terms (σ Listener : Type) where
  client : Routine σ Listener Unit → Prop := fun _ => True
  listening : Routine σ Listener Unit → Prop := fun _ => True
  acting : Routine σ Listener (Except String ActionEffect) → Prop := fun _ => True
  reach : Duration → Prop := fun _ => True
  returns : Drain (Work σ Listener) → Except InterpreterError Delivery → Prop :=
    fun _ _ => True
  returnsAfterStep : Drain (Work σ Listener) → Except InterpreterError Delivery → Prop :=
    fun _ _ => True

namespace Terms

variable (terms : Terms σ Listener)

/-- What may go on once a step and the pass over the queue are done. -/
def MayLeadTo : Origin (Work σ Listener) → Work σ Listener → Prop
  | .start resume, work => ∃ result, work = resume result
  | .signal _ drain, work =>
    ∃ result, terms.returnsAfterStep drain result ∧ work = drain.resume result

/-- Code that satisfies the terms goes on to such code, a program runs no other, and a pass over
the queue comes to no result that the terms exclude. -/
structure Hereditary (program : Program σ Listener) : Prop where
  client : ∀ code next, terms.client code → code.Continues next → terms.client next := by
    intros; trivial
  listening : ∀ code next, terms.listening code → code.Continues next → terms.listening next := by
    intros; trivial
  acting : ∀ code next, terms.acting code → code.Continues next → terms.acting next := by
    intros; trivial
  told : ∀ listener snapshot, terms.listening (program.listen listener snapshot) := by
    intros; trivial
  called : ∀ name action, program.registry.action? name = some action →
      ∀ given, terms.acting (action given) := by
    intros; trivial
  result : ∀ drain, terms.returns drain drain.result := by
    intros; trivial
  passed : ∀ drain given result, terms.returns (drain.note given) result →
      terms.returns drain result := by
    intros; trivial
  begun : ∀ drain result, terms.returnsAfterStep drain result → terms.returns drain result := by
    intros; trivial
  ended : ∀ drain given result, given ≠ .ok .ignored → terms.returns (drain.note given) result →
      terms.returnsAfterStep drain result := by
    intros; trivial

end Terms

namespace Work

/-- A piece of work satisfies terms, and so does all that may go on after it. -/
inductive Keeps (terms : Terms σ Listener) : Work σ Listener → Prop
  | client {code : Routine σ Listener Unit} (isCode : terms.client code) :
      Keeps terms (.client code)
  | listening {code : Routine σ Listener Unit} (isCode : terms.listening code) :
      Keeps terms (.listening code)
  | notifying (subscribers : List (Nat × Listener)) (snapshot : Snapshot) :
      Keeps terms (.notifying subscribers snapshot)
  | draining {drain : Drain (Work σ Listener)}
      (after : ∀ result, terms.returns drain result → Keeps terms (drain.resume result)) :
      Keeps terms (.draining drain)
  | stepping {step : RunningStep (Work σ Listener)}
      (after : ∀ work, terms.MayLeadTo step.origin work → Keeps terms work) :
      Keeps terms (.stepping step)
  | acting {step : RunningStep (Work σ Listener)} (call : Invocation)
      {code : Routine σ Listener (Except String ActionEffect)} (isCode : terms.acting code)
      (after : ∀ work, terms.MayLeadTo step.origin work → Keeps terms work) :
      Keeps terms (.acting step call code)
  | advancing {limit : Duration} (fired : Nat)
      {resume : Except InterpreterError Nat → Work σ Listener} (inReach : terms.reach limit)
      (after : ∀ result, Keeps terms (resume result)) :
      Keeps terms (.advancing limit fired resume)

variable {program : Program σ Listener} {interpreter : Interpreter Listener}
variable {work other : Work σ Listener} {origin : Origin (Work σ Listener)}
variable {terms : Terms σ Listener}

section

variable (hereditary : terms.Hereditary program)

include hereditary

theorem Keeps.drainAfter (after : ∀ work, terms.MayLeadTo origin work → work.Keeps terms)
    {delivery : Delivery} (heeded : delivery ≠ .ignored) :
    (Work.draining (Execution.drainAfter origin delivery)).Keeps terms := by
  cases origin with
  | start resume => exact .draining fun result _ => after _ ⟨_, rfl⟩
  | signal fired drain =>
      refine .draining fun result returns => after _ ⟨result, ?_, rfl⟩
      exact hereditary.ended drain (.ok delivery) result (by simpa using heeded) returns

theorem Keeps.continues (keeps : work.Keeps terms) (onward : work.Continues other) :
    other.Keeps terms := by
  cases keeps with
  | client isCode =>
      cases onward with
      | client onward => exact .client (hereditary.client _ _ isCode onward)
  | listening isCode =>
      cases onward with
      | listening onward => exact .listening (hereditary.listening _ _ isCode onward)
  | acting call isCode after =>
      cases onward with
      | acting _ _ onward => exact .acting call (hereditary.acting _ _ isCode onward) after
  | _ => cases onward

/-- Whatever succeeds work that keeps to terms does so too, as long as the work does not ask to
move the clock beyond their reach. -/
theorem Keeps.inherited (keeps : work.Keeps terms)
    (asked : interpreter.isRunning = true → ∀ span limit resume,
      work.Asks (.advance span) resume → interpreter.now.add? span = some limit →
      terms.reach limit)
    (successor : work.SucceededBy program interpreter other) : other.Keeps terms := by
  cases successor with
  | continues onward => exact keeps.continues hereditary onward
  | notice => exact .notifying _ _
  | start asks begun =>
      refine .stepping ?_
      rw [begun]
      rintro _ ⟨result, rfl⟩
      exact keeps.continues hereditary (asks.continues result)
  | send asks =>
      exact .draining fun result _ => keeps.continues hereditary (asks.continues result)
  | advance asks running reaches =>
      refine .advancing 0 (asked running _ _ _ asks reaches) fun result => ?_
      exact keeps.continues hereditary (asks.continues result)
  | tell => exact .listening (hereditary.told _ _)
  | @take drain _ _ begun =>
      cases keeps with
      | draining after =>
          refine .stepping ?_
          rw [begun]
          rintro _ ⟨result, returns, rfl⟩
          exact after result (hereditary.begun drain result returns)
  | note drain =>
      cases keeps with
      | draining after =>
          exact .draining fun result returns => after _ (hereditary.passed drain _ result returns)
  | release drain =>
      cases keeps with
      | draining after => exact after _ (hereditary.result drain)
  | skip same =>
      cases keeps with
      | stepping after => exact .stepping (same ▸ after)
  | call same isAction =>
      cases keeps with
      | stepping after => exact .acting _ (hereditary.called _ _ isAction _) (same ▸ after)
  | commit step heeded =>
      cases keeps with
      | stepping after => exact .drainAfter hereditary after heeded
  | succeed call code same =>
      cases keeps with
      | acting _ _ after => exact .stepping (same ▸ after)
  | abandon call code error isStart =>
      cases keeps with
      | acting _ _ after => exact after _ (isStart ▸ ⟨_, rfl⟩)
  | @fail _ _ _ _ _ drain isSignal =>
      cases keeps with
      | acting _ _ after =>
          refine .draining fun result returns => after _ (isSignal ▸ ⟨result, ?_, rfl⟩)
          exact hereditary.ended drain _ result (by simp) returns
  | arrive =>
      cases keeps with
      | advancing _ _ after => exact after _
  | tick =>
      cases keeps with
      | advancing _ inReach after => exact .advancing _ inReach after
  | fire onward =>
      cases keeps with
      | advancing _ inReach after =>
          refine .draining fun result _ => ?_
          rcases onward result with goesOn | ⟨error, ends⟩
          · exact goesOn ▸ .advancing _ inReach after
          · exact ends ▸ after _

end

end Work

namespace Execution

/-- A stack holds what lay under some work, and what may succeed that work. -/
def Succeeds (program : Program σ Listener) (interpreter : Interpreter Listener)
    (top : Work σ Listener) (rest stack : List (Work σ Listener)) : Prop :=
  ∀ work ∈ stack, top.SucceededBy program interpreter work ∨ work ∈ rest

variable {program : Program σ Listener} {execution : Execution σ Listener} {now : Timestamp}
variable {interpreter : Interpreter Listener} {top work : Work σ Listener}
variable {rest : List (Work σ Listener)} {step : RunningStep (Work σ Listener)}

theorem succeeds_cons (successor : top.SucceededBy program interpreter work) :
    Succeeds program interpreter top rest (work :: rest) :=
  List.forall_mem_cons.2 ⟨.inl successor, fun _ => .inr⟩

theorem succeeds_bidding (notice : Option (List (Nat × Listener) × Snapshot))
    (successor : top.SucceededBy program interpreter work) :
    Succeeds program interpreter top rest (noticeWork notice ++ work :: rest) := by
  refine List.forall_mem_append.2 ⟨fun told member => ?_, succeeds_cons successor⟩
  cases notice with
  | none => cases member
  | some pair =>
      obtain rfl := List.mem_singleton.1 member
      exact .inl (.notice top pair.1 pair.2)

theorem succeeds_deliver {signal : Signal}
    {resume : Except InterpreterError Delivery → Work σ Listener}
    (answered : ∀ delivery, top.SucceededBy program interpreter (resume (.ok delivery)))
    (drains : top.SucceededBy program interpreter (.draining { resume })) :
    Succeeds program interpreter top rest (execution.deliver signal resume rest).work := by
  simp only [deliver]
  split
  · exact succeeds_cons (answered _)
  · split
    · exact succeeds_cons (answered _)
    · exact succeeds_cons drains

theorem succeeds_rest : Succeeds program interpreter top rest rest := fun _ => .inr

theorem succeeds_nil : Succeeds program interpreter top rest [] :=
  fun _ member => absurd member List.not_mem_nil

theorem succeeds_meet {request : Request Listener} {resume : request.Answer → Work σ Listener}
    (asks : top.Asks request resume) :
    Succeeds program execution.interpreter top rest
      (execution.meet program rest request resume).work := by
  have answered : ∀ answer, top.SucceededBy program execution.interpreter (resume answer) :=
    fun answer => .continues (asks.continues answer)
  cases request with
  | start =>
      simp only [meet]
      split
      · exact succeeds_cons (answered _)
      · exact succeeds_cons (.start asks rfl)
  | send event => exact succeeds_deliver (fun _ => answered _) (.send asks)
  | stop => exact succeeds_bidding _ (answered ())
  | advance span =>
      simp only [meet]
      split
      · exact succeeds_cons (answered _)
      · next running =>
        split
        · next limit reaches =>
          exact succeeds_cons (.advance asks (by simpa using running) reaches)
        · exact succeeds_nil
  | subscribe listener => exact succeeds_cons (answered _)
  | unsubscribe number => exact succeeds_cons (answered _)
  | can event => exact succeeds_cons (answered _)
  | look => exact succeeds_cons (answered _)

theorem succeeds_proceed {α : Type} {around : Routine σ Listener α → Work σ Listener}
    {finish : α → Execution σ Listener} {code : Routine σ Listener α}
    (asks : ∀ request next,
      (around (.ask request next)).Asks request fun answer => around (next answer))
    (continues : ∀ {code next}, code.Continues next → (around code).Continues (around next))
    (finished : ∀ result,
      Succeeds program execution.interpreter (around (.done result)) rest (finish result).work) :
    Succeeds program execution.interpreter (around code) rest
      (execution.proceed program rest around finish code).work := by
  cases code with
  | done result => exact finished result
  | read next => exact succeeds_cons (.continues (continues (.read next _)))
  | write memory next => exact succeeds_cons (.continues (continues (.write memory next)))
  | ask request next => exact succeeds_meet (asks request next)

theorem succeeds_drainNext {drain : Drain (Work σ Listener)} :
    Succeeds program interpreter (.draining drain) rest
      (execution.drainNext program rest drain).work := by
  unfold drainNext
  split
  · exact succeeds_bidding _ (.release drain)
  · simp only
    split
    · exact succeeds_cons (.note drain _)
    · split
      · next found =>
        have begun := congrArg RunningStep.origin (Program.begun_of_stepOf? found)
        exact succeeds_cons (.take begun)
      · exact succeeds_cons (.note drain _)

theorem succeeds_actionDone {call : Invocation}
    {code : Routine σ Listener (Except String ActionEffect)} {outcome : Except String ActionEffect} :
    Succeeds program interpreter (.acting step call code) rest
      (execution.actionDone program rest step call outcome).work := by
  cases outcome with
  | ok effect => exact succeeds_cons (.succeed call code rfl)
  | error reason =>
      simp only [actionDone, abort]
      split
      · next isStart => exact succeeds_bidding _ (.abandon call code _ isStart)
      · next isSignal => exact succeeds_cons (.fail call code _ isSignal)

theorem succeeds_stepNext :
    Succeeds program interpreter (.stepping step) rest
      (execution.stepNext program now rest step).work := by
  unfold stepNext
  split
  · unfold finish
    split
    · exact succeeds_cons (.commit step (by simp))
    · exact succeeds_nil
    · exact List.forall_mem_cons.2
        ⟨.inl (.notice _ _ _), succeeds_cons (.commit step (by simp))⟩
  · simp only
    split
    · exact succeeds_cons (.skip rfl)
    · next isAction =>
      refine succeeds_cons (.call ?_ isAction _)
      rfl

theorem succeeds_advanceNext {limit : Duration} {fired : Nat}
    {resume : Except InterpreterError Nat → Work σ Listener} :
    Succeeds program interpreter (.advancing limit fired resume) rest
      (execution.advanceNext rest limit fired resume).work := by
  simp only [advanceNext]
  split
  · exact succeeds_cons (.arrive limit fired resume)
  · refine succeeds_deliver (fun _ => .tick limit fired resume) (.fire fun result => ?_)
    cases result with
    | ok delivery => exact .inl rfl
    | error error => exact .inr ⟨error, rfl⟩

/-- After a small step the stack holds what lay under the work on top, and what has succeeded
that. -/
theorem succeeds_of_step {next : Execution σ Listener} (isWork : execution.work = top :: rest)
    (steps : execution.step? program now = some next) :
    Succeeds program execution.interpreter top rest next.work := by
  simp only [step?, isWork] at steps
  cases top with
  | client code =>
      obtain rfl := Option.some.inj steps
      exact succeeds_proceed .client .client fun _ => succeeds_rest
  | listening code =>
      obtain rfl := Option.some.inj steps
      exact succeeds_proceed .listening .listening fun _ => succeeds_rest
  | acting step call code =>
      obtain rfl := Option.some.inj steps
      exact succeeds_proceed (.acting step call) (.acting step call) fun _ => succeeds_actionDone
  | stepping step =>
      obtain rfl := Option.some.inj steps
      exact succeeds_stepNext
  | notifying subscribers snapshot =>
      cases subscribers with
      | nil =>
          obtain rfl := Option.some.inj steps
          exact succeeds_rest
      | cons subscriber subscribers =>
          obtain rfl := Option.some.inj steps
          exact List.forall_mem_cons.2
            ⟨.inl (.tell _ snapshot subscriber.2), succeeds_cons (.notice _ subscribers snapshot)⟩
  | draining drain =>
      obtain rfl := Option.some.inj steps
      exact succeeds_drainNext
  | advancing limit fired resume =>
      obtain rfl := Option.some.inj steps
      exact succeeds_advanceNext

/-- What holds of all work still does after a small step, if it is inherited by whatever succeeds
the work on top. -/
theorem forall_work_of_step {holds : Work σ Listener → Prop} {next : Execution σ Listener}
    (all : ∀ work ∈ execution.work, holds work)
    (inherited : ∀ top other, execution.work.head? = some top → holds top →
      top.SucceededBy program execution.interpreter other → holds other)
    (steps : execution.step? program now = some next) : ∀ work ∈ next.work, holds work := by
  cases isWork : execution.work with
  | nil => simp [step?, isWork] at steps
  | cons top rest =>
      rw [isWork, List.forall_mem_cons] at all
      rw [isWork] at inherited
      intro work member
      rcases succeeds_of_step isWork steps work member with successor | below
      · exact inherited top work rfl all.1 successor
      · exact all.2 work below

/-- All work in progress keeps to terms. -/
def Keeps (terms : Terms σ Listener) (execution : Execution σ Listener) : Prop :=
  ∀ work ∈ execution.work, work.Keeps terms

theorem Keeps.next {terms : Terms σ Listener} {next : Execution σ Listener}
    (keeps : execution.Keeps terms) (hereditary : terms.Hereditary program)
    (asked : execution.interpreter.isRunning = true → ∀ top span limit resume,
      execution.work.head? = some top → top.Asks (.advance span) resume →
      execution.interpreter.now.add? span = some limit → terms.reach limit)
    (steps : execution.step? program now = some next) : next.Keeps terms := by
  refine forall_work_of_step keeps ?_ steps
  intro top other onTop holds successor
  refine holds.inherited hereditary (fun running span limit resume asks => ?_) successor
  exact asked running top span limit resume onTop asks

/-- Terms that do not bind the clock are kept along a whole run. -/
theorem Keeps.along {terms : Terms σ Listener} {last : Execution σ Listener}
    (keeps : execution.Keeps terms) (hereditary : terms.Hereditary program)
    (unbound : ∀ limit, terms.reach limit)
    (steps : Relation.ReflTransGen program.Step execution last) : last.Keeps terms := by
  induction steps with
  | refl => exact keeps
  | tail _ step ih =>
      obtain ⟨now, step⟩ := step
      exact ih.next hereditary (fun _ _ _ _ _ _ _ _ => unbound _) step

end Execution

/-- Neither what is active nor the reading of the clock has changed. -/
structure Interpreter.StandsStill (before after : Interpreter Listener) : Prop where
  configuration : after.configuration = before.configuration
  now : after.now = before.now

namespace Interpreter

theorem standsStill_stop (interpreter : Interpreter Listener) :
    interpreter.StandsStill interpreter.stop.1 := by
  refine ⟨interpreter.stop_spec.2.1, ?_⟩
  cases lifecycle : interpreter.lifecycle <;> cases busy : interpreter.busy <;>
    simp [stop, lifecycle, busy, now, Timers.clear]

end Interpreter

namespace Execution

variable {program : Program σ Listener} {execution : Execution σ Listener}
variable {rest : List (Work σ Listener)} {step : RunningStep (Work σ Listener)}

theorem standsStill_deliver {signal : Signal}
    {resume : Except InterpreterError Delivery → Work σ Listener} :
    execution.interpreter.StandsStill (execution.deliver signal resume rest).interpreter := by
  simp only [deliver]
  split
  · exact ⟨rfl, rfl⟩
  · split <;> exact ⟨rfl, rfl⟩

theorem standsStill_meet {request : Request Listener}
    {resume : request.Answer → Work σ Listener} :
    execution.interpreter.StandsStill
      (execution.meet program rest request resume).interpreter := by
  cases request with
  | start =>
      simp only [meet]
      split <;> exact ⟨rfl, rfl⟩
  | send event => exact standsStill_deliver
  | stop => exact execution.interpreter.standsStill_stop
  | advance span =>
      simp only [meet]
      split
      · exact ⟨rfl, rfl⟩
      · split <;> exact ⟨rfl, rfl⟩
  | subscribe listener => exact ⟨rfl, rfl⟩
  | unsubscribe number => exact ⟨rfl, rfl⟩
  | can event => exact ⟨rfl, rfl⟩
  | look => exact ⟨rfl, rfl⟩

theorem standsStill_proceed {α : Type} {around : Routine σ Listener α → Work σ Listener}
    {finish : α → Execution σ Listener} {code : Routine σ Listener α}
    (finished : ∀ result, execution.interpreter.StandsStill (finish result).interpreter) :
    execution.interpreter.StandsStill
      (execution.proceed program rest around finish code).interpreter := by
  cases code with
  | done result => exact finished result
  | read next => exact ⟨rfl, rfl⟩
  | write memory next => exact ⟨rfl, rfl⟩
  | ask request next => exact standsStill_meet

theorem standsStill_actionDone {call : Invocation} {outcome : Except String ActionEffect} :
    execution.interpreter.StandsStill
      (execution.actionDone program rest step call outcome).interpreter := by
  cases outcome with
  | ok effect => exact ⟨rfl, rfl⟩
  | error reason =>
      simp only [actionDone, abort]
      split
      · exact ⟨rfl, rfl⟩
      · next fired drain isSignal => cases fired <;> exact ⟨rfl, rfl⟩

theorem standsStill_drainNext {drain : Drain (Work σ Listener)} :
    execution.interpreter.StandsStill (execution.drainNext program rest drain).interpreter := by
  unfold drainNext
  split
  · exact ⟨rfl, rfl⟩
  · simp only
    split
    · exact ⟨rfl, rfl⟩
    · split <;> exact ⟨rfl, rfl⟩

/-- The interpreter stands still unless the work on top is a step or a move of the clock. -/
theorem standsStill_of_step {next : Execution σ Listener} {now : Timestamp} {top : Work σ Listener}
    (isWork : execution.work = top :: rest) (steps : execution.step? program now = some next) :
    execution.interpreter.StandsStill next.interpreter ∨
      (∃ step, top = .stepping step ∧ next = execution.stepNext program now rest step) ∨
      ∃ limit fired resume, top = .advancing limit fired resume ∧
        next = execution.advanceNext rest limit fired resume := by
  simp only [step?, isWork] at steps
  cases top with
  | client code =>
      obtain rfl := Option.some.inj steps
      exact .inl (standsStill_proceed fun _ => ⟨rfl, rfl⟩)
  | listening code =>
      obtain rfl := Option.some.inj steps
      exact .inl (standsStill_proceed fun _ => ⟨rfl, rfl⟩)
  | acting step call code =>
      obtain rfl := Option.some.inj steps
      exact .inl (standsStill_proceed fun _ => standsStill_actionDone)
  | stepping step =>
      obtain rfl := Option.some.inj steps
      exact .inr (.inl ⟨step, rfl, rfl⟩)
  | notifying subscribers snapshot =>
      left
      cases subscribers <;> (obtain rfl := Option.some.inj steps; exact ⟨rfl, rfl⟩)
  | draining drain =>
      obtain rfl := Option.some.inj steps
      exact .inl standsStill_drainNext
  | advancing limit fired resume =>
      obtain rfl := Option.some.inj steps
      exact .inr (.inr ⟨limit, fired, resume, rfl, rfl⟩)

end Execution

end Statechart
