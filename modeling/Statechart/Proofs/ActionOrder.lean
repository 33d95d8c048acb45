import Statechart.Proofs.Choice
import Statechart.Proofs.Crossings
import Statechart.Proofs.DocumentOrder
import Statechart.Proofs.Progress
import Statechart.Proofs.Provision
import Statechart.Proofs.Succession

/-!
# The order of actions

What the actions of a step are told and what they leave, from the first to the last. First come
the exit actions, from the innermost state outwards, then those of the transitions, then the entry
actions, from the outermost state inwards. Every action is told the context that the one before
has left, and the state that declares it, whatever the actions request in between. What is called
is the action that is registered, and what it leaves is what its code comes to.
-/

namespace Statechart

variable {σ Listener : Type}

/-- What is noted of an action: what it is told, and what it leaves if it succeeds. -/
inductive Note
  | called (action : String) (told : ActionCall)
  | left (effect : ActionEffect)

namespace Definition

open StateTree

variable (definition : Definition)

/-- States are exited once each, from the last in document order to the first, and none before
one that lies below it. They are the active states that some transition exits. -/
structure ExitsInOrder (active : Configuration) (transitions : List Transition)
    (exited : List Nat) : Prop where
  once : exited.Nodup
  ordered : exited.Pairwise fun earlier later => definition.Precedes later earlier
  innermost : exited.Pairwise fun earlier later => ¬ definition.Below later earlier
  wereActive : ∀ n ∈ exited, n ∈ active
  exits : ∀ n, n ∈ exited ↔ ∃ t ∈ transitions, n ∈ definition.exitSet active t

/-- States are entered once each, in document order, and none before one that it lies below.
They are the states that are active afterwards and were not active before or have been exited. -/
structure EntersInOrder (active after : Configuration) (exited entered : List Nat) : Prop where
  once : entered.Nodup
  ordered : entered.Pairwise fun earlier later => definition.Precedes earlier later
  outermost : entered.Pairwise fun earlier later => ¬ definition.Below earlier later
  enters : ∀ n, n ∈ entered ↔ n ∈ after ∧ (n ∉ active ∨ n ∈ exited)

/-- The actions that states declare for their exit, then those of transitions, then those that
states declare for their entry. -/
def sequence (exited : List Nat) (transitions : List Transition) (entered : List Nat) :
    List Invocation :=
  exited.flatMap (fun n => invocationsOf (definition.behaviour n).exit n) ++
    transitions.flatMap (fun t => invocationsOf t.actions t.source) ++
    entered.flatMap fun n => invocationsOf (definition.behaviour n).entry n

/-- An action is called: it is told a context, an event, and the id of its state. -/
def calling (event : String) (context : Context) (call : Invocation) : Note :=
  .called call.action ⟨context, event, (definition.node call.state).id⟩

variable {definition}

section

variable {machine : MachineSpec} (built : machine.build = .ok definition)
variable {active : Configuration} {transitions : List Transition}

include built

theorem exitsInOrder_plan (inTree : ∀ n ∈ active, n < definition.size) :
    definition.ExitsInOrder active transitions (definition.plan active transitions).exited := by
  have exits : ∀ n, n ∈ (definition.plan active transitions).exited ↔
      ∃ t ∈ transitions, n ∈ definition.exitSet active t := by
    intro n
    rw [plan_exited, List.mem_reverse, StateSet.mem_toList, exiting, StateSet.mem_ofList,
      List.mem_flatMap]
    rfl
  have isActive : ∀ n ∈ (definition.plan active transitions).exited, n ∈ active := by
    intro n isExited
    obtain ⟨t, _, member⟩ := (exits n).1 isExited
    exact (mem_exitSet.1 member).1
  have decreasing : (definition.plan active transitions).exited.Pairwise (· > ·) := by
    rw [plan_exited, List.pairwise_reverse]
    exact (definition.exiting active transitions).increasing
  refine ⟨decreasing.imp Nat.ne_of_gt, ?_, ?_, isActive, exits⟩
  · apply decreasing.imp_of_mem
    intro earlier later isEarlier _ less
    exact (precedes_iff_lt built (inTree earlier (isActive earlier isEarlier))).2 less
  · apply decreasing.imp
    intro earlier later less below
    exact Nat.lt_asymm less below.lt

theorem entersInOrder_plan (compatible : definition.Compatible active transitions) :
    definition.EntersInOrder active (definition.plan active transitions).configuration
      (definition.plan active transitions).exited
      (definition.plan active transitions).entered := by
  have crosses : (definition.plan active transitions).Crosses active :=
    crosses_plan compatible.linked fun t member g => compatible.target member
  have increasing : (definition.plan active transitions).entered.Pairwise (· < ·) :=
    (definition.entering active transitions).increasing
  have enters : ∀ n, n ∈ (definition.plan active transitions).entered ↔
      n ∈ (definition.plan active transitions).configuration ∧
        (n ∉ active ∨ n ∈ (definition.plan active transitions).exited) := by
    intro n
    rw [crosses.after]
    constructor
    · intro isEntered
      refine ⟨.inl isEntered, ?_⟩
      by_cases isActive : n ∈ active
      · exact .inr (crosses.enters isEntered isActive)
      · exact .inl isActive
    · rintro ⟨isEntered | ⟨isActive, stays⟩, inactive | isExited⟩
      · exact isEntered
      · exact isEntered
      · exact absurd isActive inactive
      · exact absurd isExited stays
  refine ⟨increasing.imp Nat.ne_of_lt, ?_, ?_, enters⟩
  · apply increasing.imp_of_mem
    intro earlier later _ isLater less
    exact (precedes_iff_lt built (compatible.lt_size_of_after ((enters later).1 isLater).1)).2 less
  · apply increasing.imp
    intro earlier later less below
    exact Nat.lt_asymm less below.lt

end

end Definition

namespace RunningStep

variable {W : Type} (begun : RunningStep W)

/-- A step of which some actions have run. -/
def partway (pending : List Invocation) (context : Context) (raised : List String) :
    RunningStep W :=
  { begun with pending, context, raised := begun.raised ++ raised }

@[simp]
theorem partway_pending (pending : List Invocation) (context : Context) (raised : List String) :
    (begun.partway pending context raised).pending = pending := rfl

theorem partway_none : begun.partway begun.pending begun.context [] = begun := by
  simp [partway]

end RunningStep

/-- The work of an action that a step has called, once its code has run on for a while. -/
def Work.IsActing (step : RunningStep (Work σ Listener)) (call : Invocation)
    (called : Routine σ Listener (Except String ActionEffect)) (work : Work σ Listener) : Prop :=
  ∃ code, Relation.ReflTransGen Routine.Continues called code ∧ work = .acting step call code

namespace Execution

/-- The actions of the step in progress have all run, or one of them has just failed. -/
def isConcluded (execution : Execution σ Listener) : Bool :=
  match execution.work with
  | .stepping step :: _ => step.pending.isEmpty
  | .acting _ _ (.done (.error _)) :: _ => true
  | _ => false

end Execution

namespace Program

variable (program : Program σ Listener)

/-- What a small step tells of the actions of the step in progress: one is called, or one has
come to its end. -/
def notes (execution : Execution σ Listener) : List Note :=
  match execution.work with
  | .stepping step :: _ =>
    match step.pending with
    | [] => []
    | call :: _ =>
      if program.registry.hasAction call.action then
        [program.definition.calling step.event step.context call]
      else []
  | .acting _ _ (.done (.ok effect)) :: _ => [.left effect]
  | _ => []

/-- A small step runs the action that the step in progress is to call next, as it is registered,
with what it is told; or an action has come to its end and leaves the step what it has come to; or
neither, and the small step is the same whatever the actions are. -/
inductive Invokes (now : Timestamp) (before after : Execution σ Listener) : List Note → Prop
  | called {step : RunningStep (Work σ Listener)} {call : Invocation} {pending : List Invocation}
      {action : Action σ Listener} {rest : List (Work σ Listener)}
      (isWork : before.work = .stepping step :: rest) (isNext : step.pending = call :: pending)
      (isAction : program.registry.action? call.action = some action)
      (calls : after.work = .acting { step with pending } call
        (action ⟨step.context, step.event, (program.definition.node call.state).id⟩) :: rest) :
      Invokes now before after [program.definition.calling step.event step.context call]
  | left {step : RunningStep (Work σ Listener)} {call : Invocation} {effect : ActionEffect}
      {rest : List (Work σ Listener)}
      (isWork : before.work = .acting step call (.done (.ok effect)) :: rest)
      (returns : after.work = .stepping { step with
        context := effect.context, raised := step.raised ++ effect.raised } :: rest) :
      Invokes now before after [.left effect]
  | nothing
      (same : ∀ actions : List (String × Action σ Listener),
        (∀ name, (actions.lookup name).isSome = program.registry.hasAction name) →
        before.step? { program with registry.actions := actions } now =
          before.step? program now) :
      Invokes now before after []

/-- Actions are called one after the other, each as it is registered and with the context that the
one before has left, and each comes to its effect. What they raise adds up. -/
inductive Threads (event : String) :
    List Invocation → Context → List Note → Context → List String → Prop
  | nil (context : Context) : Threads event [] context [] context []
  | cons {calls : List Invocation} {context last : Context} {log : List Note}
      {raised : List String} (call : Invocation) {action : Action σ Listener}
      (effect : ActionEffect) (isAction : program.registry.action? call.action = some action)
      (comesTo : (action ⟨context, event, (program.definition.node call.state).id⟩).ComesTo
        (.ok effect))
      (onward : Threads event calls effect.context log last raised) :
      Threads event (call :: calls) context
        (program.definition.calling event context call :: .left effect :: log) last
        (effect.raised ++ raised)

/-- Small steps from one execution to another of which none goes beyond the end of the step in
progress, with what is noted of its actions. -/
inductive Unfolds (start : Execution σ Listener) : List Note → Execution σ Listener → Prop
  | refl : Unfolds start [] start
  | tail {log : List Note} {before after : Execution σ Listener} {now : Timestamp}
      (unfolds : Unfolds start log before) (underway : before.isConcluded = false)
      (step : before.step? program now = some after) :
      Unfolds start (log ++ program.notes before) after

/-- What is noted in a number of small steps at one reading of the clock. -/
def noted (now : Timestamp) : Nat → Execution σ Listener → List Note
  | 0, _ => []
  | count + 1, execution =>
    match execution.step? program now with
    | none => []
    | some next => program.notes execution ++ noted now count next

variable {program} {start : Interpreter Listener} {execution before after : Execution σ Listener}
variable {kind : Work σ Listener → Prop} {rest : List (Work σ Listener)} {now : Timestamp}

theorem Unfolds.head {middle : Execution σ Listener} {log : List Note}
    (underway : before.isConcluded = false) (step : before.step? program now = some middle)
    (unfolds : program.Unfolds middle log after) :
    program.Unfolds before (program.notes before ++ log) after := by
  induction unfolds with
  | refl => simpa using Unfolds.refl.tail underway step
  | tail _ stillUnderway next ih =>
      rw [← List.append_assoc]
      exact ih.tail stillUnderway next

theorem unfolds_run (now : Timestamp) (count : Nat) (execution : Execution σ Listener)
    (underway : ∀ k < count, (execution.run program now k).isConcluded = false) :
    program.Unfolds execution (program.noted now count execution)
      (execution.run program now count) := by
  induction count generalizing execution with
  | zero => exact .refl
  | succ count ih =>
      rw [Program.noted, Execution.run]
      cases step : execution.step? program now with
      | none => exact .refl
      | some next =>
          apply Unfolds.head (underway 0 (Nat.zero_lt_succ count)) step
          apply ih next
          intro k less
          have later := underway (k + 1) (Nat.succ_lt_succ less)
          rwa [Execution.run, step] at later

/-- A small step in which nothing is noted runs no action. -/
theorem step?_of_no_notes (quiet : program.notes before = [])
    {actions : List (String × Action σ Listener)}
    (same : ∀ name, (actions.lookup name).isSome = program.registry.hasAction name) :
    before.step? { program with registry.actions := actions } now =
      before.step? program now := by
  cases isWork : before.work with
  | nil => simp only [Execution.step?, isWork]
  | cons top rest =>
      simp only [Execution.step?, isWork]
      cases top with
      | stepping step =>
          cases pending : step.pending with
          | nil =>
              simp only [Execution.stepNext, pending]
              rfl
          | cons call later =>
              have unknown : program.registry.hasAction call.action = false := by
                simpa [notes, isWork, pending] using quiet
              have missing : ∀ {known : List (String × Action σ Listener)},
                  (known.lookup call.action).isSome = false → known.lookup call.action = none :=
                fun unseen => Option.isNone_iff_eq_none.1 (Option.isSome_eq_false_iff.1 unseen)
              simp only [Execution.stepNext, pending, Registry.action?, missing unknown,
                missing ((same call.action).trans unknown)]
      | notifying subscribers snapshot => cases subscribers <;> rfl
      | _ => rfl

/-- What is noted of a small step is what it calls and what it is left, and it calls nothing
else. -/
theorem invokes_of_step (steps : before.step? program now = some after) :
    program.Invokes now before after (program.notes before) := by
  by_cases quiet : program.notes before = []
  · rw [quiet]
    exact .nothing fun actions => step?_of_no_notes quiet
  · cases isWork : before.work with
    | nil => exact absurd (by simp [notes, isWork]) quiet
    | cons top rest =>
        simp only [Execution.step?, isWork] at steps
        cases top with
        | stepping step =>
            cases pending : step.pending with
            | nil => exact absurd (by simp [notes, isWork, pending]) quiet
            | cons call later =>
                cases found : program.registry.action? call.action with
                | none =>
                    exact absurd (by simp [notes, isWork, pending, Registry.hasAction, found]) quiet
                | some action =>
                    have calls : program.notes before =
                        [program.definition.calling step.event step.context call] := by
                      simp [notes, isWork, pending, Registry.hasAction, found]
                    simp only [Execution.stepNext, pending, found] at steps
                    obtain rfl := Option.some.inj steps
                    rw [calls]
                    exact .called isWork pending found rfl
        | acting step call code =>
            cases code with
            | done result =>
                cases result with
                | ok effect =>
                    have returns : program.notes before = [.left effect] := by
                      simp [notes, isWork]
                    obtain rfl := Option.some.inj steps
                    rw [returns]
                    exact .left isWork rfl
                | error reason => exact absurd (by simp [notes, isWork]) quiet
            | _ => exact absurd (by simp [notes, isWork]) quiet
        | _ => exact absurd (by simp [notes, isWork]) quiet

theorem Threads.concat {event : String} {calls : List Invocation} {context last : Context}
    {log : List Note} {raised : List String}
    (threads : program.Threads event calls context log last raised) (call : Invocation)
    {action : Action σ Listener} (effect : ActionEffect)
    (isAction : program.registry.action? call.action = some action)
    (comesTo : (action ⟨last, event, (program.definition.node call.state).id⟩).ComesTo
      (.ok effect)) :
    program.Threads event (calls ++ [call]) context
      (log ++ [program.definition.calling event last call] ++ [.left effect]) effect.context
      (raised ++ effect.raised) := by
  induction threads with
  | nil context => simpa using Threads.cons call effect isAction comesTo (.nil effect.context)
  | cons first given known leaves onward ih =>
      simpa using Threads.cons first given known leaves (ih comesTo)

/-- On top of the rest there is work of a kind, or moving the clock on its behalf, and the
interpreter is held; or else the clock has left its range. -/
def StillHeld (start : Interpreter Listener) (kind : Work σ Listener → Prop)
    (rest : List (Work σ Listener)) (execution : Execution σ Listener) : Prop :=
  execution.work = [] ∨
    Held start execution.interpreter ∧
      ∃ work, Work.Leads kind work ∧ execution.work = work :: rest

theorem stillHeld_deliver {signal : Signal}
    {resume : Except InterpreterError Delivery → Work σ Listener}
    (held : Held start execution.interpreter) (leads : ∀ result, Work.Leads kind (resume result)) :
    StillHeld start kind rest (execution.deliver signal resume rest) := by
  right
  unfold Execution.deliver
  split
  · exact ⟨held, _, leads _, rfl⟩
  · have isBusy : (execution.interpreter.enqueue signal).busy = true := held.busy
    simp only [isBusy, if_true]
    exact ⟨⟨held.busy, held.started, held.configuration, held.context⟩, _, leads _, rfl⟩

theorem stillHeld_advanceNext {limit : Duration} {fired : Nat}
    {resume : Except InterpreterError Nat → Work σ Listener}
    (held : Held start execution.interpreter) (leads : ∀ result, Work.Leads kind (resume result)) :
    StillHeld start kind rest (execution.advanceNext rest limit fired resume) := by
  simp only [Execution.advanceNext]
  split
  · exact .inr ⟨⟨held.busy, held.started, held.configuration, held.context⟩, _, leads _, rfl⟩
  · next timer timers _ =>
    have popped : Held start { execution.interpreter with timers } :=
      ⟨held.busy, held.started, held.configuration, held.context⟩
    apply stillHeld_deliver popped
    intro result
    cases result with
    | ok delivery => exact .advancing _ _ leads
    | error error => exact leads _

/-- Whatever an action requests, it goes on when it has been answered. -/
theorem stillHeld_meet {request : Request Listener} {resume : request.Answer → Work σ Listener}
    (held : Held start execution.interpreter) (leads : ∀ answer, Work.Leads kind (resume answer)) :
    StillHeld start kind rest (execution.meet program rest request resume) := by
  cases request with
  | start =>
      have refused : execution.interpreter.lifecycle ≠ .notStarted := held.started
      simp only [Execution.meet, refused, ne_eq, not_false_eq_true, if_true]
      exact .inr ⟨held, _, leads _, rfl⟩
  | send event => exact stillHeld_deliver held leads
  | stop =>
      obtain ⟨sameBusy, sameConfiguration, sameContext, started, _⟩ :=
        execution.interpreter.stop_spec
      have noNotice := execution.interpreter.stop_of_busy held.busy
      refine .inr ⟨⟨sameBusy.trans held.busy, started, sameConfiguration.trans held.configuration,
        sameContext.trans held.context⟩, resume (), leads (), ?_⟩
      simp [Execution.meet, noNotice, Execution.noticeWork]
  | advance span =>
      simp only [Execution.meet]
      split
      · exact .inr ⟨held, _, leads _, rfl⟩
      · split
        · exact .inr ⟨held, _, .advancing _ _ leads, rfl⟩
        · exact .inl rfl
  | subscribe listener =>
      exact .inr ⟨⟨held.busy, held.started, held.configuration, held.context⟩, _, leads _, rfl⟩
  | unsubscribe number =>
      exact .inr ⟨⟨held.busy, held.started, held.configuration, held.context⟩, _, leads _, rfl⟩
  | can event => exact .inr ⟨held, _, leads _, rfl⟩
  | look => exact .inr ⟨held, _, leads _, rfl⟩

/-- The step that a run began with is midway: some of its actions have been called one after the
other, and have succeeded. It stands between two actions, or the next one has been called and has
not come to its end. -/
inductive Midway (program : Program σ Listener) (start : Interpreter Listener)
    (begun : RunningStep (Work σ Listener)) (rest : List (Work σ Listener)) :
    List Note → Execution σ Listener → Prop
  | overflowed {log : List Note} {execution : Execution σ Listener}
      (noWork : execution.work = []) : Midway program start begun rest log execution
  | between {calls pending : List Invocation} {context : Context} {raised : List String}
      {log : List Note} {execution : Execution σ Listener}
      (held : Held start execution.interpreter)
      (isWork : execution.work =
        .stepping (begun.partway pending context raised) :: rest)
      (split : begun.pending = calls ++ pending)
      (threads : program.Threads begun.event calls begun.context log context raised) :
      Midway program start begun rest log execution
  | inside {calls pending : List Invocation} {call : Invocation} {context : Context}
      {raised : List String} {log : List Note} {work : Work σ Listener}
      {action : Action σ Listener} {execution : Execution σ Listener}
      (held : Held start execution.interpreter) (isWork : execution.work = work :: rest)
      (isAction : program.registry.action? call.action = some action)
      (leads : Work.Leads (Work.IsActing (begun.partway pending context raised) call
        (action ⟨context, begun.event, (program.definition.node call.state).id⟩)) work)
      (split : begun.pending = calls ++ call :: pending)
      (threads : program.Threads begun.event calls begun.context log context raised) :
      Midway program start begun rest
        (log ++ [program.definition.calling begun.event context call]) execution

variable {begun : RunningStep (Work σ Listener)} {log : List Note}

theorem midway_quietly (quiet : program.notes before = [])
    (midway : program.Midway start begun rest log after) :
    program.Midway start begun rest (log ++ program.notes before) after := by
  rw [quiet, List.append_nil]
  exact midway

section Inside

variable {calls pending : List Invocation} {call : Invocation} {context : Context}
variable {raised : List String} {action : Action σ Listener}
variable (split : begun.pending = calls ++ call :: pending)
variable (threads : program.Threads begun.event calls begun.context log context raised)
variable (isAction : program.registry.action? call.action = some action)

include split threads isAction

theorem midway_of_stillHeld
    (stillHeld : StillHeld start (Work.IsActing (begun.partway pending context raised) call
      (action ⟨context, begun.event, (program.definition.node call.state).id⟩)) rest after) :
    program.Midway start begun rest
      (log ++ [program.definition.calling begun.event context call]) after := by
  rcases stillHeld with noWork | ⟨held, work, leads, isWork⟩
  · exact .overflowed noWork
  · exact .inside held isWork isAction leads split threads

/-- An action that has been called runs on, or it comes to its end and leaves the step between
two actions. -/
theorem midway_acting {code : Routine σ Listener (Except String ActionEffect)}
    (held : Held start before.interpreter)
    (reached : Relation.ReflTransGen Routine.Continues
      (action ⟨context, begun.event, (program.definition.node call.state).id⟩) code)
    (isWork : before.work = .acting (begun.partway pending context raised) call code :: rest)
    (underway : before.isConcluded = false) (steps : before.step? program now = some after) :
    program.Midway start begun rest
      (log ++ [program.definition.calling begun.event context call] ++ program.notes before)
      after := by
  simp only [Execution.step?, isWork] at steps
  obtain rfl := Option.some.inj steps
  have isActing : ∀ next, code.Continues next →
      Work.Leads (Work.IsActing (begun.partway pending context raised) call
        (action ⟨context, begun.event, (program.definition.node call.state).id⟩))
        (.acting (begun.partway pending context raised) call next) :=
    fun next onward => .here ⟨next, reached.tail onward, rfl⟩
  cases code with
  | done result =>
      cases result with
      | ok effect =>
          have returns : program.notes before = [.left effect] := by simp [notes, isWork]
          have isStep : (.stepping { (begun.partway pending context raised) with
                context := effect.context
                raised := (begun.partway pending context raised).raised ++ effect.raised } :
                Work σ Listener) =
              .stepping (begun.partway pending effect.context (raised ++ effect.raised)) := by
            simp [RunningStep.partway]
          have isSplit : begun.pending = (calls ++ [call]) ++ pending := by simp [split]
          rw [returns]
          exact .between held (congrArg (· :: rest) isStep) isSplit
            (threads.concat call effect isAction reached)
      | error reason => simp [Execution.isConcluded, isWork] at underway
  | read next =>
      apply midway_quietly (by simp [notes, isWork])
      exact midway_of_stillHeld split threads isAction
        (.inr ⟨held, _, isActing _ (.read next _), rfl⟩)
  | write memory next =>
      apply midway_quietly (by simp [notes, isWork])
      exact midway_of_stillHeld split threads isAction
        (.inr ⟨held, _, isActing _ (.write memory next), rfl⟩)
  | ask request next =>
      apply midway_quietly (by simp [notes, isWork])
      apply midway_of_stillHeld split threads isAction
      exact stillHeld_meet held fun answer => isActing _ (.ask request next answer)

end Inside

/-- A small step that does not go beyond the end of a step keeps it midway. -/
theorem Midway.next (midway : program.Midway start begun rest log before)
    (provided : ∀ call ∈ begun.pending, program.registry.hasAction call.action = true)
    (underway : before.isConcluded = false) (steps : before.step? program now = some after) :
    program.Midway start begun rest (log ++ program.notes before) after := by
  cases midway with
  | overflowed noWork => simp [Execution.step?, noWork] at steps
  | @between calls pending context raised _ _ held isWork split threads =>
      cases pending with
      | nil => simp [Execution.isConcluded, isWork] at underway
      | cons call pending =>
          have isProvided := provided call (by simp [split])
          obtain ⟨action, found⟩ := Option.isSome_iff_exists.1 isProvided
          have calls : program.notes before =
              [program.definition.calling begun.event context call] := by
            simp [notes, isWork, isProvided, RunningStep.partway]
          simp only [Execution.step?, isWork, Execution.stepNext, RunningStep.partway_pending,
            found] at steps
          obtain rfl := Option.some.inj steps
          rw [calls]
          exact .inside held rfl found (.here ⟨_, .refl, rfl⟩) split threads
  | @inside calls pending call context raised _ work _ _ held isWork isAction leads split threads =>
      cases leads with
      | here isActing =>
          obtain ⟨code, reached, rfl⟩ := isActing
          exact midway_acting split threads isAction held reached isWork underway steps
      | advancing limit fired resumes =>
          simp only [Execution.step?, isWork] at steps
          obtain rfl := Option.some.inj steps
          apply midway_quietly (by simp [notes, isWork])
          exact midway_of_stillHeld split threads isAction (stillHeld_advanceNext held resumes)

theorem Unfolds.midway (unfolds : program.Unfolds before log after)
    (provided : ∀ call ∈ begun.pending, program.registry.hasAction call.action = true)
    (held : Held before.interpreter before.interpreter)
    (isWork : before.work = .stepping begun :: rest) :
    program.Midway before.interpreter begun rest log after := by
  induction unfolds with
  | refl =>
      rw [← begun.partway_none] at isWork
      exact .between held isWork rfl (.nil _)
  | tail _ underway step ih => exact ih.next provided underway step

/-- When the actions of a step have all succeeded, they have been called one after the other. -/
theorem Midway.threads {ran : RunningStep (Work σ Listener)} {onward : List (Work σ Listener)}
    (midway : program.Midway start begun rest log after)
    (isWork : after.work = .stepping ran :: onward) (runsOut : ran.pending = []) :
    ∃ raised, ran.plan = begun.plan ∧ ran.raised = begun.raised ++ raised ∧
      program.Threads begun.event begun.pending begun.context log ran.context
        raised := by
  cases midway with
  | overflowed noWork => simp [noWork] at isWork
  | between held isBetween split threads =>
      rw [isBetween] at isWork
      obtain rfl := Work.stepping.inj (List.cons.inj isWork).1
      rw [RunningStep.partway_pending] at runsOut
      rw [split, runsOut, List.append_nil]
      exact ⟨_, rfl, rfl, threads⟩
  | inside held isInside _ leads =>
      rw [isInside] at isWork
      obtain ⟨rfl, _⟩ := List.cons.inj isWork
      cases leads with
      | here isActing =>
          obtain ⟨_, _, same⟩ := isActing
          cases same

theorem begun_of_event {interpreter : Interpreter Listener} {drain : Drain (Work σ Listener)}
    {event : String}
    (found : Execution.stepOf? program interpreter drain (.event event) = some begun) :
    begun = .begin (.signal none drain) event
      (program.definition.plan interpreter.configuration
        (program.definition.select program.registry.guard? interpreter.configuration
          interpreter.context event))
      interpreter.context := by
  simp only [Execution.stepOf?] at found
  split at found
  · cases found
  · exact (Option.some.inj found).symm

/-- A registry that is accepted provides what the step of an event calls. -/
theorem provided_of_event {machine : MachineSpec} (built : machine.build = .ok program.definition)
    (valid : program.registry.validate program.definition = .ok ())
    {interpreter : Interpreter Listener} {drain : Drain (Work σ Listener)} {event : String}
    (found : Execution.stepOf? program interpreter drain (.event event) = some begun) :
    ∀ call ∈ begun.pending, program.registry.hasAction call.action = true := by
  intro call isCalled
  rw [begun_of_event found] at isCalled
  have declared : ∀ t ∈ program.definition.select program.registry.guard?
      interpreter.configuration interpreter.context event,
      ∃ n, t ∈ program.definition.transitions n := by
    intro t isTaken
    obtain ⟨_, _, n, _, isDeclared⟩ := Definition.exists_declared_of_select isTaken
    exact ⟨n, isDeclared⟩
  obtain ⟨n, uses⟩ := Definition.usesAction_of_plan declared isCalled
  have provides := (Registry.validate_eq_ok_iff built).1 valid
  exact Option.isSome_iff_exists.2 (provides.action uses)

/-- When the actions of the step of an event have all succeeded, exactly those have been called
that the exited states declare for their exit, then those of the transitions, then those that the
entered states declare for their entry, and one context has been handed through all of them. The
exits go from the innermost state outwards against document order, the transitions stand in
document order of the leaves that chose them, and the entries go from the outermost state inwards
in document order. That an action is called is that a small step runs its code as it is registered,
with what it is told, and all code of actions that runs is noted. -/
theorem actions_called_in_order {machine : MachineSpec}
    (built : machine.build = .ok program.definition)
    (valid : program.registry.validate program.definition = .ok ())
    (legal : Configuration.isLegal program.definition.toStateTree
      before.interpreter.configuration = true)
    (isBusy : before.interpreter.busy = true)
    (started : before.interpreter.lifecycle ≠ .notStarted)
    {event : String} {drain : Drain (Work σ Listener)}
    (found : Execution.stepOf? program before.interpreter drain (.event event) = some begun)
    (isWork : before.work = .stepping begun :: rest)
    (unfolds : program.Unfolds before log after)
    {ran : RunningStep (Work σ Listener)} {onward : List (Work σ Listener)}
    (comesTo : after.work = .stepping ran :: onward) (runsOut : ran.pending = []) :
    let active := before.interpreter.configuration
    let context := before.interpreter.context
    let taken := program.definition.select program.registry.guard? active context event
    let plan := ran.result.plan
    program.definition.ExitsInOrder active taken plan.exited ∧
      program.definition.EntersInOrder active plan.configuration plan.exited plan.entered ∧
      taken.Pairwise (program.definition.ChosenBefore program.registry.guard? context event
        (Configuration.leaves program.definition.toStateTree active)) ∧
      (∀ t ∈ taken, t ∈ program.definition.transitions t.source) ∧
      program.Threads event
        (program.definition.sequence plan.exited taken plan.entered) context log ran.context
        ran.raised ∧
      ∀ earlier now midway next, program.Unfolds before earlier midway →
        midway.step? program now = some next →
        program.Invokes now midway next (program.notes midway) := by
  have wellFormed := MachineSpec.wellFormed_of_build built
  have isLegal := (Configuration.isLegal_iff wellFormed.linked).1 legal
  have provided := provided_of_event built valid found
  have midway := unfolds.midway provided ⟨isBusy, started, rfl, rfl⟩ isWork
  obtain ⟨raised, samePlan, isRaised, threads⟩ := midway.threads comesTo runsOut
  obtain rfl := begun_of_event found
  simp only [RunningStep.result, samePlan, isRaised]
  have compatible : program.definition.Compatible before.interpreter.configuration
      (program.definition.select program.registry.guard? before.interpreter.configuration
        before.interpreter.context event) := wellFormed.compatible_select isLegal
  refine ⟨Definition.exitsInOrder_plan built fun n => isLegal.inTree,
    Definition.entersInOrder_plan built compatible, Definition.pairwise_select, ?_, threads,
    fun _ _ _ _ _ steps => invokes_of_step steps⟩
  intro t isTaken
  exact (wellFormed.declared_of_select isLegal isTaken).2

/-- A vault with all the actions that it names. -/
def keptVault : Program Unit Empty := vault ["greet", "lock", "log", "unlock"]

/-- How a vault that is shut opens. -/
def unlocking : Transition := ⟨"open", 1, some 2, some "known", ["unlock"]⟩

/-- A vault of which someone who is known has just asked that it open. -/
def openingVault : Execution Unit Empty where
  interpreter :=
    { (.fresh MachineSpec.vault.resolved none : Interpreter Empty) with
      lifecycle := .running
      busy := true }
  memory := ()
  work :=
    [.stepping (.begin (.signal none { resume := fun _ => .client (.done ()) }) "open"
      (MachineSpec.vault.resolved.plan (.ofList [0, 1]) [unlocking]) .empty)]

/-- A vault that opens logs that it has been shut, is unlocked, and then greets who comes. The
first small step runs the action that logs. -/
theorem vault_opens_in_order :
    keptVault.noted default 6 openingVault =
        [.called "log" ⟨.empty, "open", "vault.shut"⟩, .left ⟨.empty, []⟩,
          .called "unlock" ⟨.empty, "open", "vault.shut"⟩, .left ⟨.empty, []⟩,
          .called "greet" ⟨.empty, "open", "vault.open"⟩, .left ⟨.empty, []⟩] ∧
      ∃ ran, (openingVault.run keptVault default 6).work = [.stepping ran] ∧
        MachineSpec.vault.resolved.ExitsInOrder (.ofList [0, 1]) [unlocking]
          ran.result.plan.exited ∧
        MachineSpec.vault.resolved.EntersInOrder (.ofList [0, 1]) ran.result.plan.configuration
          ran.result.plan.exited ran.result.plan.entered ∧
        keptVault.Threads "open"
          (MachineSpec.vault.resolved.sequence ran.result.plan.exited [unlocking]
            ran.result.plan.entered)
          .empty (keptVault.noted default 6 openingVault) ran.context ran.raised ∧
        ∃ after action step call rest, openingVault.step? keptVault default = some after ∧
          keptVault.registry.action? "log" = some action ∧
          after.work = .acting step call (action ⟨.empty, "open", "vault.shut"⟩) :: rest := by
  have built : MachineSpec.vault.build = .ok keptVault.definition := MachineSpec.vault_built
  obtain ⟨_, beginsWith⟩ := exists_beginsWith begins_vault
  have isShut : openingVault.interpreter.configuration = .ofList [0, 1] := by cbv
  have selected : keptVault.definition.select keptVault.registry.guard? (.ofList [0, 1])
      openingVault.interpreter.context "open" = [unlocking] := by cbv
  have found : Execution.stepOf? keptVault openingVault.interpreter
      { resume := fun _ => .client (.done ()) } (.event "open") =
      some (.begin (.signal none { resume := fun _ => .client (.done ()) }) "open"
        (MachineSpec.vault.resolved.plan (.ofList [0, 1]) [unlocking]) .empty) := by
    simp only [Execution.stepOf?, isShut, selected]
    rfl
  have underway : ∀ k < 6, (openingVault.run keptVault default k).isConcluded = false := by
    intro k less
    interval_cases k <;> cbv
  obtain ⟨ran, comesTo, runsOut⟩ : ∃ ran,
      (openingVault.run keptVault default 6).work = [.stepping ran] ∧ ran.pending = [] :=
    ⟨_, by cbv, by cbv⟩
  have inOrder := actions_called_in_order built beginsWith.valid (by cbv) rfl (by decide) found rfl
    (unfolds_run default 6 openingVault underway) comesTo runsOut
  simp only [isShut, selected] at inOrder
  obtain ⟨exits, enters, _, _, threads, invokes⟩ := inOrder
  refine ⟨by cbv, ran, comesTo, exits, enters, threads, ?_⟩
  have logs : keptVault.notes openingVault = [.called "log" ⟨.empty, "open", "vault.shut"⟩] := by
    cbv
  have calls := invokes [] default openingVault _ .refl rfl
  rw [logs] at calls
  generalize isNote : [Note.called "log" ⟨.empty, "open", "vault.shut"⟩] = list at calls
  cases calls with
  | @called step call _ action rest _ _ isAction calls =>
      obtain ⟨isLog, isTold⟩ := Note.called.inj (List.cons.inj isNote).1
      rw [← isLog] at isAction
      rw [← isTold] at calls
      exact ⟨_, action, _, call, rest, rfl, isAction, calls⟩
  | left => cases isNote
  | nothing => cases isNote

end Program

end Statechart
