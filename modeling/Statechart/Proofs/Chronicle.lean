import Statechart.Proofs.Runs

/-!
# Chronicles

What a run does that reaches beyond the work in progress, in the order in which it
happens: signals enter the queue and are taken from it, steps take effect, subscribers
are told. A chronicle says nothing about the queue itself, about timers or about who is
subscribed, so that statements about these can be made against it.
-/

namespace Statechart

/-- A step that has taken effect: what it was to commit, the reading of the clock, its
entry in the history, and the state of the machine that it has led to. -/
structure Commitment where
  step : StepResult
  clock : Duration
  record : Option StepRecord
  snapshot : Snapshot

inductive Happening (Listener : Type)
  /-- A signal enters the queue. -/
  | entered (signal : Signal)
  /-- A signal is taken from the queue, to be processed. -/
  | taken (signal : Signal)
  /-- The signals that wait are dropped, by a stop or by a start that fails. -/
  | dropped
  | committed (commitment : Commitment)
  /-- A machine that is not done is stopped, in the state that is given. -/
  | stopped (snapshot : Snapshot)
  /-- A listener is told a snapshot under the number of its subscription. -/
  | told (number : Nat) (listener : Listener) (snapshot : Snapshot)
  | unsubscribed (number : Nat)

/-- What happens in a run, oldest first. -/
abbrev Chronicle (Listener : Type) := List (Happening Listener)

variable {σ Listener : Type}

namespace Happening

def entered? : Happening Listener → Option Signal
  | entered signal => some signal
  | _ => none

def taken? : Happening Listener → Option Signal
  | taken signal => some signal
  | _ => none

def isDropped : Happening Listener → Bool
  | dropped => true
  | _ => false

def committed? : Happening Listener → Option Commitment
  | committed commitment => some commitment
  | _ => none

def stopped? : Happening Listener → Option Snapshot
  | stopped snapshot => some snapshot
  | _ => none

/-- What the subscriber of a number is told. -/
def heard? (number : Nat) : Happening Listener → Option (Listener × Snapshot)
  | told other listener snapshot => if other = number then some (listener, snapshot) else none
  | _ => none

end Happening

namespace Chronicle

/-- The events that a step has raised enter the queue. -/
def ofRaised (events : List String) : Chronicle Listener :=
  events.map fun event => .entered (.event event)

variable (chronicle : Chronicle Listener)

/-- The signals that have entered the queue. -/
def entered : List Signal := chronicle.filterMap Happening.entered?

/-- The signals that have been taken from the queue. -/
def taken : List Signal := chronicle.filterMap Happening.taken?

/-- What has happened since waiting signals were last dropped. -/
def sinceDropped : Chronicle Listener := chronicle.rtakeWhile fun happening => !happening.isDropped

def commitments : List Commitment := chronicle.filterMap Happening.committed?

/-- The states in which the machine has been stopped. -/
def farewells : List Snapshot := chronicle.filterMap Happening.stopped?

/-- What the subscriber of a number has been told. -/
def heard (number : Nat) : List (Listener × Snapshot) :=
  chronicle.filterMap (Happening.heard? number)

variable {chronicle} {later : Chronicle Listener}

@[simp]
theorem entered_nil : entered ([] : Chronicle Listener) = [] := rfl

@[simp]
theorem entered_cons (happening : Happening Listener) :
    entered (happening :: chronicle) = happening.entered?.toList ++ entered chronicle := by
  simp [entered, List.filterMap_eq_flatMap_toList]

@[simp]
theorem entered_append : entered (chronicle ++ later) = entered chronicle ++ entered later :=
  List.filterMap_append

@[simp]
theorem taken_nil : taken ([] : Chronicle Listener) = [] := rfl

@[simp]
theorem taken_cons (happening : Happening Listener) :
    taken (happening :: chronicle) = happening.taken?.toList ++ taken chronicle := by
  simp [taken, List.filterMap_eq_flatMap_toList]

@[simp]
theorem taken_append : taken (chronicle ++ later) = taken chronicle ++ taken later :=
  List.filterMap_append

@[simp]
theorem commitments_nil : commitments ([] : Chronicle Listener) = [] := rfl

@[simp]
theorem commitments_cons (happening : Happening Listener) :
    commitments (happening :: chronicle) =
      happening.committed?.toList ++ commitments chronicle := by
  simp [commitments, List.filterMap_eq_flatMap_toList]

@[simp]
theorem commitments_append :
    commitments (chronicle ++ later) = commitments chronicle ++ commitments later :=
  List.filterMap_append

@[simp]
theorem farewells_nil : farewells ([] : Chronicle Listener) = [] := rfl

@[simp]
theorem farewells_cons (happening : Happening Listener) :
    farewells (happening :: chronicle) = happening.stopped?.toList ++ farewells chronicle := by
  simp [farewells, List.filterMap_eq_flatMap_toList]

@[simp]
theorem farewells_append :
    farewells (chronicle ++ later) = farewells chronicle ++ farewells later :=
  List.filterMap_append

@[simp]
theorem heard_nil (number : Nat) : heard ([] : Chronicle Listener) number = [] := rfl

@[simp]
theorem heard_cons (happening : Happening Listener) (number : Nat) :
    heard (happening :: chronicle) number =
      (happening.heard? number).toList ++ heard chronicle number := by
  simp [heard, List.filterMap_eq_flatMap_toList]

@[simp]
theorem heard_append {number : Nat} :
    heard (chronicle ++ later) number = heard chronicle number ++ heard later number :=
  List.filterMap_append

section

variable (events : List String)

@[simp]
theorem mem_ofRaised {happening : Happening Listener} :
    happening ∈ (ofRaised events : Chronicle Listener) ↔
      ∃ event ∈ events, .entered (.event event) = happening := List.mem_map

@[simp]
theorem entered_ofRaised : entered (ofRaised events : Chronicle Listener) = events.map .event := by
  simp [entered, ofRaised, Happening.entered?, List.filterMap_map, Function.comp_def]

@[simp]
theorem taken_ofRaised : taken (ofRaised events : Chronicle Listener) = [] := by
  simp [taken, ofRaised, Happening.taken?, List.filterMap_map, Function.comp_def]

@[simp]
theorem commitments_ofRaised : commitments (ofRaised events : Chronicle Listener) = [] := by
  simp [commitments, ofRaised, Happening.committed?, List.filterMap_map, Function.comp_def]

@[simp]
theorem farewells_ofRaised : farewells (ofRaised events : Chronicle Listener) = [] := by
  simp [farewells, ofRaised, Happening.stopped?, List.filterMap_map, Function.comp_def]

end

theorem sinceDropped_append (kept : ∀ happening ∈ later, happening.isDropped = false) :
    sinceDropped (chronicle ++ later) = sinceDropped chronicle ++ later := by
  have keeps : ∀ happening ∈ later.reverse, (!happening.isDropped) = true := by
    intro happening member
    simp [kept happening (List.mem_reverse.1 member)]
  simp [sinceDropped, List.rtakeWhile, List.takeWhile_append_of_pos keeps]

theorem sinceDropped_dropped (kept : ∀ happening ∈ later, happening.isDropped = false) :
    sinceDropped (chronicle ++ .dropped :: later) = later := by
  have split : chronicle ++ .dropped :: later = (chronicle ++ [.dropped]) ++ later := by simp
  rw [split, sinceDropped_append kept]
  simp [sinceDropped, List.rtakeWhile, Happening.isDropped]

end Chronicle

namespace Interpreter

/-- What happens when a request is made. -/
def requested (interpreter : Interpreter Listener) (definition : Definition) :
    Request Listener → Chronicle Listener
  | .send event => if interpreter.isRunning then [.entered (.event event)] else []
  | .stop =>
    match interpreter.lifecycle with
    | .stopped => []
    | .done => [.dropped]
    | .notStarted | .running =>
      let value := Configuration.value definition.toStateTree interpreter.configuration
      [.dropped, .stopped ⟨value, interpreter.context, .stopped⟩]
  | .unsubscribe number => [.unsubscribed number]
  | .start | .advance _ | .subscribe _ | .can _ | .look => []

/-- How a step took effect that has led from one state of the interpreter to another. -/
def commitment (before after : Interpreter Listener) (definition : Definition) (now : Timestamp)
    (step : StepResult) : Commitment :=
  let value := Configuration.value definition.toStateTree after.configuration
  { step
    clock := before.now
    record :=
      if step.recorded then some ⟨step.event, before.snapshot.value, value, now⟩ else none
    snapshot := ⟨value, after.context, after.lifecycle.status⟩ }

/-- What happens when a step has run all its actions. Unless the machine is done now, the
events that the actions have raised enter the queue. -/
def ended (interpreter : Interpreter Listener) (definition : Definition) (now : Timestamp)
    (step : StepResult) : Chronicle Listener :=
  match interpreter.commit definition now step with
  | .published after =>
    .committed (interpreter.commitment after definition now step) ::
      if after.lifecycle = .done then [] else Chronicle.ofRaised step.raised
  | .discarded | .overflow _ => []

section

variable {before published : Interpreter Listener} {definition : Definition} {now : Timestamp}
variable {step : StepResult}
variable (isPublished : before.commit definition now step = .published published)

include isPublished

theorem ended_of_published :
    before.ended definition now step =
      .committed (before.commitment published definition now step) ::
        if published.lifecycle = .done then [] else Chronicle.ofRaised step.raised := by
  simp [ended, isPublished]

theorem commitments_ended :
    Chronicle.commitments (before.ended definition now step) =
      [before.commitment published definition now step] := by
  rw [ended_of_published isPublished]
  split <;> simp [Happening.committed?]

theorem farewells_ended : Chronicle.farewells (before.ended definition now step) = [] := by
  rw [ended_of_published isPublished]
  split <;> simp [Happening.stopped?]

theorem snapshot_commitment :
    (before.commitment published definition now step).snapshot = published.snapshot :=
  (published_of_commit isPublished).snapshot.symm

end

/-- What happens when the clock is moved up to a limit: a timer that is due sends a signal. -/
def fired (interpreter : Interpreter Listener) (limit : Duration) : Chronicle Listener :=
  if interpreter.isRunning then
    match interpreter.timers.pop? limit with
    | some (timer, _) => [.entered (.timer timer.key timer.generation)]
    | none => []
  else []

end Interpreter

namespace Program

variable (program : Program σ Listener)

/-- What happens in one small step, as the work on top and the interpreter tell. -/
def happenings (now : Timestamp) (execution : Execution σ Listener) : Chronicle Listener :=
  let interpreter := execution.interpreter
  match execution.work with
  | .client (.ask request _) :: _ | .listening (.ask request _) :: _
  | .acting _ _ (.ask request _) :: _ => interpreter.requested program.definition request
  | .acting step _ (.done (.error _)) :: _ =>
    match step.origin with
    | .start _ => [.dropped]
    | .signal _ _ => []
  | .stepping step :: _ =>
    match step.pending with
    | [] => interpreter.ended program.definition now step.result
    | _ :: _ => []
  | .draining _ :: _ => (interpreter.queue.take 1).map .taken
  | .notifying ((number, listener) :: _) snapshot :: _ => [.told number listener snapshot]
  | .advancing limit _ _ :: _ => interpreter.fired limit
  | _ => []

/-- Small steps from one execution to another, with what happens in them. -/
inductive RunsTo (start : Execution σ Listener) : Chronicle Listener → Execution σ Listener → Prop
  | refl : RunsTo start [] start
  | tail {chronicle : Chronicle Listener} {before after : Execution σ Listener} {now : Timestamp}
      (run : RunsTo start chronicle before) (step : before.step? program now = some after) :
      RunsTo start (chronicle ++ program.happenings now before) after

/-- What happens in a number of small steps at one reading of the clock. -/
def chronicle (now : Timestamp) : Nat → Execution σ Listener → Chronicle Listener
  | 0, _ => []
  | count + 1, execution =>
    match execution.step? program now with
    | none => []
    | some next => program.happenings now execution ++ chronicle now count next

variable {program} {start middle execution : Execution σ Listener}
variable {chronicle later : Chronicle Listener}

theorem RunsTo.steps (run : program.RunsTo start chronicle execution) :
    Relation.ReflTransGen program.Step start execution := by
  induction run with
  | refl => exact .refl
  | tail _ step ih => exact ih.tail ⟨_, step⟩

/-- Without work a run does not go on. -/
theorem RunsTo.eq_of_no_work (run : program.RunsTo start chronicle execution)
    (noWork : start.work = []) : chronicle = [] ∧ execution = start := by
  induction run with
  | refl => exact ⟨rfl, rfl⟩
  | tail _ step ih =>
      obtain ⟨_, rfl⟩ := ih
      simp [Execution.step?, noWork] at step

theorem RunsTo.trans (run : program.RunsTo start chronicle middle)
    (onward : program.RunsTo middle later execution) :
    program.RunsTo start (chronicle ++ later) execution := by
  induction onward with
  | refl => simpa using run
  | tail _ step ih =>
      rw [← List.append_assoc]
      exact ih.tail step

theorem runsTo_run (now : Timestamp) (count : Nat) (start : Execution σ Listener) :
    program.RunsTo start (program.chronicle now count start) (start.run program now count) := by
  induction count generalizing start with
  | zero => exact .refl
  | succ count ih =>
      rw [Program.chronicle, Execution.run]
      cases step : start.step? program now with
      | none => exact .refl
      | some next =>
          have first : program.RunsTo start (program.happenings now start) next := by
            simpa using RunsTo.refl.tail step
          exact first.trans (ih next)

/-- Every state that a run reaches has a chronicle. -/
theorem exists_runsTo (steps : Relation.ReflTransGen program.Step start execution) :
    ∃ chronicle, program.RunsTo start chronicle execution := by
  induction steps with
  | refl => exact ⟨[], .refl⟩
  | tail _ step ih =>
      obtain ⟨chronicle, run⟩ := ih
      obtain ⟨now, step⟩ := step
      exact ⟨_, run.tail step⟩

end Program

end Statechart
