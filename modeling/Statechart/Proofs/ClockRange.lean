import Statechart.Proofs.Advances
import Statechart.Proofs.Succession

/-!
# The range of the clock

Two sums are formed that may be beyond the range of the clock: the reading up to which a host
moves it, and the deadline of a timer that a step arms. A run leaves the range at the first of
them, and then all work is dropped where it is: a step that was to arm a timer too late has
armed some of its timers and stays in progress for good. As long as the spans that the host asks
for and the longest delay of the machine add up to less than the range, no sum leaves it.
-/

namespace Statechart

variable {σ Listener : Type}

/-! ## Sums beyond the range -/

/-- The span by which a request is to move the clock. -/
def Request.span? : Request Listener → Option Duration
  | .advance span => some span
  | _ => none

/-- The span by which a routine asks to move the clock next. -/
def Routine.span? {α : Type} : Routine σ Listener α → Option Duration
  | .ask request _ => request.span?
  | _ => none

def Work.span? : Work σ Listener → Option Duration
  | .client code | .listening code => code.span?
  | .acting _ _ code => code.span?
  | _ => none

namespace Execution

/-- The span by which the clock of a running machine is to be moved next. -/
def span? (execution : Execution σ Listener) : Option Duration :=
  if execution.interpreter.isRunning then execution.work.head?.bind Work.span? else none

/-- A running machine is about to commit a step that arms a timer beyond the range of the
clock. -/
def ArmsBeyond (program : Program σ Listener) (execution : Execution σ Listener)
    (step : RunningStep (Work σ Listener)) : Prop :=
  execution.interpreter.isRunning = true ∧ execution.Ready step ∧
    ∃ entry ∈ program.definition.timersOf step.plan.entered,
      execution.interpreter.now.add? entry.2 = none

/-- The next small step forms a sum beyond the range of the clock. -/
inductive Exceeds (program : Program σ Listener) (execution : Execution σ Listener) : Prop
  | moving {span : Duration} (asked : execution.span? = some span)
      (beyond : execution.interpreter.now.add? span = none)
  | arming {step : RunningStep (Work σ Listener)} (beyond : execution.ArmsBeyond program step)

variable {program : Program σ Listener} {execution next : Execution σ Listener} {now : Timestamp}
variable {rest : List (Work σ Listener)}

theorem exceeds_iff_of_stepping {step : RunningStep (Work σ Listener)}
    (isWork : execution.work = .stepping step :: rest) :
    execution.Exceeds program ↔ execution.ArmsBeyond program step := by
  constructor
  · rintro (⟨asked, _⟩ | ⟨running, ready, beyond⟩)
    · simp [span?, isWork, Work.span?] at asked
    · obtain ⟨_, _, isStepping⟩ := id ready
      rw [isWork] at isStepping
      cases isStepping
      exact ⟨running, ready, beyond⟩
  · exact .arming

theorem exceeds_iff_of_not_stepping {work : Work σ Listener}
    (isWork : execution.work = work :: rest) (notStepping : ∀ step, work ≠ .stepping step) :
    execution.Exceeds program ↔ execution.interpreter.isRunning = true ∧
      ∃ span, work.span? = some span ∧ execution.interpreter.now.add? span = none := by
  constructor
  · rintro (⟨asked, beyond⟩ | ⟨_, ⟨_, _, isStepping⟩, _⟩)
    · simp only [span?, isWork, List.head?_cons, Option.bind_some, Option.ite_none_right_eq_some]
        at asked
      exact ⟨asked.1, _, asked.2, beyond⟩
    · rw [isWork] at isStepping
      exact absurd (List.cons.inj isStepping).1 (notStepping _)
  · rintro ⟨running, span, asked, beyond⟩
    exact .moving (by simp [span?, isWork, running, asked]) beyond

@[simp]
theorem overflowed_deliver {signal : Signal}
    {resume : Except InterpreterError Delivery → Work σ Listener} :
    (execution.deliver signal resume rest).overflowed = execution.overflowed := by
  unfold deliver
  split
  · rfl
  · simp only
    split <;> rfl

theorem overflowed_meet {request : Request Listener} {resume : request.Answer → Work σ Listener}
    (inRange : execution.overflowed = false) :
    (execution.meet program rest request resume).overflowed = true ↔
      execution.interpreter.isRunning = true ∧
        ∃ span, request.span? = some span ∧ execution.interpreter.now.add? span = none := by
  cases request with
  | advance span =>
      cases running : execution.interpreter.isRunning with
      | false => simp [meet, running, inRange]
      | true =>
          cases sum : execution.interpreter.now.add? span <;>
            simp [meet, running, inRange, sum, Request.span?, overflow]
  | start =>
      simp only [meet]
      split <;> simp [inRange, Request.span?]
  | send event => simp [meet, inRange, Request.span?]
  | _ => simp [meet, inRange, Request.span?]

theorem overflowed_drainNext {drain : Drain (Work σ Listener)} :
    (execution.drainNext program rest drain).overflowed = execution.overflowed := by
  unfold drainNext
  split
  · rfl
  · simp only
    split
    · rfl
    · split <;> rfl

theorem overflowed_actionDone {step : RunningStep (Work σ Listener)} {call : Invocation}
    (outcome : Except String ActionEffect) :
    (execution.actionDone program rest step call outcome).overflowed = execution.overflowed := by
  cases outcome with
  | ok effect => rfl
  | error reason =>
      simp only [actionDone, abort]
      split <;> rfl

theorem overflowed_advanceNext {limit : Duration} {fired : Nat}
    {resume : Except InterpreterError Nat → Work σ Listener} :
    (execution.advanceNext rest limit fired resume).overflowed = execution.overflowed := by
  unfold advanceNext
  simp only
  split
  · rfl
  · exact overflowed_deliver

theorem overflowed_proceed {α : Type} {around : Routine σ Listener α → Work σ Listener}
    {finish : α → Execution σ Listener} (code : Routine σ Listener α)
    (inRange : execution.overflowed = false)
    (finished : ∀ result, (finish result).overflowed = false) :
    (execution.proceed program rest around finish code).overflowed = true ↔
      execution.interpreter.isRunning = true ∧
        ∃ span, code.span? = some span ∧ execution.interpreter.now.add? span = none := by
  cases code with
  | done result => simp [proceed, finished, Routine.span?]
  | read next => simp [proceed, inRange, Routine.span?]
  | write memory next => simp [proceed, inRange, Routine.span?]
  | ask request next => exact overflowed_meet inRange

/-- A step that arms a timer too late leaves all work where it is: some timers have been armed
by then. -/
theorem finish_of_beyond {step : RunningStep (Work σ Listener)}
    (running : execution.interpreter.isRunning = true)
    (beyond : ∃ entry ∈ program.definition.timersOf step.plan.entered,
      execution.interpreter.now.add? entry.2 = none) :
    execution.finish program now rest step = execution.overflow { execution.interpreter with
      timers := (execution.interpreter.timersAfter program.definition step.result).1 } := by
  have incomplete : (execution.interpreter.timersAfter program.definition step.result).2 = false :=
    Interpreter.timersAfter_incomplete_iff.2 beyond
  have isRunning : execution.interpreter.lifecycle = .running := by
    simpa [Interpreter.isRunning] using running
  cases all : execution.interpreter.timersAfter program.definition step.result with
  | mk timers complete =>
      obtain rfl : complete = false := by simpa [all] using incomplete
      simp [finish, Interpreter.commit, isRunning, all]

theorem overflowed_finish {step : RunningStep (Work σ Listener)}
    (inRange : execution.overflowed = false) :
    (execution.finish program now rest step).overflowed = true ↔
      execution.interpreter.isRunning = true ∧
        ∃ entry ∈ program.definition.timersOf step.plan.entered,
          execution.interpreter.now.add? entry.2 = none := by
  refine ⟨fun overflowed => ?_, fun ⟨running, beyond⟩ => ?_⟩
  · unfold finish at overflowed
    split at overflowed
    · cases inRange.symm.trans overflowed
    · next overflows =>
      obtain ⟨running, beyond⟩ := Interpreter.beyond_of_overflow overflows
      exact ⟨by simp [Interpreter.isRunning, running], beyond⟩
    · cases inRange.symm.trans overflowed
  · rw [finish_of_beyond running beyond]
    rfl

theorem overflowed_stepNext {step : RunningStep (Work σ Listener)}
    (inRange : execution.overflowed = false) (isWork : execution.work = .stepping step :: rest) :
    (execution.stepNext program now rest step).overflowed = true ↔
      execution.ArmsBeyond program step := by
  cases pending : step.pending with
  | nil =>
      have ready : execution.Ready step := ⟨pending, rest, isWork⟩
      simp [stepNext, pending, overflowed_finish inRange, ArmsBeyond, ready]
  | cons call later =>
      have unready : ¬ execution.Ready step := by simp [Ready, pending]
      simp only [stepNext, pending, ArmsBeyond, unready]
      split <;> simp [inRange]

/-- A small step leaves the range of the clock exactly if it forms a sum beyond it. -/
theorem overflowed_iff_exceeds (inRange : execution.overflowed = false)
    (steps : execution.step? program now = some next) :
    next.overflowed = true ↔ execution.Exceeds program := by
  cases isWork : execution.work with
  | nil => simp [step?, isWork] at steps
  | cons work rest =>
      have askless : ∀ {after : Execution σ Listener}, (∀ step, work ≠ .stepping step) →
          work.span? = none → after.overflowed = execution.overflowed →
          (after.overflowed = true ↔ execution.Exceeds program) := by
        intro after notStepping noSpan same
        rw [same, inRange, exceeds_iff_of_not_stepping isWork notStepping, noSpan]
        simp
      simp only [step?, isWork] at steps
      cases work with
      | client code =>
          obtain rfl := Option.some.inj steps
          rw [exceeds_iff_of_not_stepping isWork (by simp)]
          exact overflowed_proceed code inRange fun _ => inRange
      | listening code =>
          obtain rfl := Option.some.inj steps
          rw [exceeds_iff_of_not_stepping isWork (by simp)]
          exact overflowed_proceed code inRange fun _ => inRange
      | acting step call code =>
          obtain rfl := Option.some.inj steps
          rw [exceeds_iff_of_not_stepping isWork (by simp)]
          refine overflowed_proceed code inRange fun outcome => ?_
          rw [overflowed_actionDone, inRange]
      | stepping step =>
          obtain rfl := Option.some.inj steps
          rw [exceeds_iff_of_stepping isWork]
          exact overflowed_stepNext inRange isWork
      | notifying subscribers snapshot =>
          refine askless (by simp) rfl ?_
          cases subscribers <;> (obtain rfl := Option.some.inj steps; rfl)
      | draining drain =>
          obtain rfl := Option.some.inj steps
          exact askless (by simp) rfl overflowed_drainNext
      | advancing limit fired resume =>
          obtain rfl := Option.some.inj steps
          exact askless (by simp) rfl overflowed_advanceNext

theorem not_exceeds_of_no_work (noWork : execution.work = []) : ¬ execution.Exceeds program := by
  rintro (⟨asked, _⟩ | ⟨_, ⟨_, _, isStepping⟩, _⟩)
  · simp [span?, noWork] at asked
  · cases noWork.symm.trans isStepping

/-- A run leaves the range of the clock at the first sum beyond it. -/
theorem overflowed_runAt_iff {readings : List Timestamp} (orderly : program.Orderly execution)
    (inRange : execution.overflowed = false) :
    (execution.runAt program readings).overflowed = true ↔
      ∃ earlier now later, readings = earlier ++ now :: later ∧
        (execution.runAt program earlier).Exceeds program := by
  induction readings generalizing execution with
  | nil => simp [runAt, inRange]
  | cons now readings ih =>
      cases steps : execution.step? program now with
      | none =>
          have noWork := step?_eq_none.1 steps
          simp [runAt_of_no_work noWork, inRange, not_exceeds_of_no_work noWork]
      | some next =>
          have orderlyNext := orderly.next ⟨now, steps⟩
          have first := overflowed_iff_exceeds inRange steps
          rw [runAt_cons steps]
          cases range : next.overflowed with
          | true =>
              have noWork : next.work = [] := by simpa [Program.Orderly, range] using orderlyNext
              rw [runAt_of_no_work noWork, range]
              exact iff_of_true rfl ⟨[], now, readings, rfl, first.1 range⟩
          | false =>
              have staysInRange : ¬ execution.Exceeds program := by simp [← first, range]
              rw [ih orderlyNext range]
              constructor
              · rintro ⟨earlier, later, rest, rfl, exceeds⟩
                exact ⟨now :: earlier, later, rest, rfl, by rwa [runAt_cons steps]⟩
              · rintro ⟨earlier, later, rest, split, exceeds⟩
                cases earlier with
                | nil => exact absurd exceeds staysInRange
                | cons _ earlier =>
                    obtain ⟨rfl, rfl⟩ := List.cons.inj split
                    exact ⟨earlier, later, rest, rfl, by rwa [runAt_cons steps] at exceeds⟩

end Execution

/-! ## How far the clock may move -/

/-- The clock is moved no further than a bound, in nanoseconds. -/
def Terms.upTo (bound : Nat) : Terms σ Listener where
  reach limit := limit.nanos ≤ bound

theorem Terms.hereditary_upTo {program : Program σ Listener} (bound : Nat) :
    (Terms.upTo bound).Hereditary program := { }

namespace Work

theorem Keeps.upTo_mono {work : Work σ Listener} {bound larger : Nat}
    (keeps : work.Keeps (.upTo bound)) (le : bound ≤ larger) : work.Keeps (.upTo larger) := by
  induction keeps with
  | client isCode => exact .client isCode
  | listening isCode => exact .listening isCode
  | notifying subscribers snapshot => exact .notifying subscribers snapshot
  | draining after ih => exact .draining ih
  | stepping after ih => exact .stepping ih
  | acting call isCode after ih => exact .acting call isCode ih
  | advancing fired inReach after ih => exact .advancing fired (Nat.le_trans inReach le) ih

theorem Asks.span?_eq {asking : Work σ Listener} {request : Request Listener}
    {resume : request.Answer → Work σ Listener} (asks : asking.Asks request resume) :
    asking.span? = request.span? := by
  cases asks <;> rfl

end Work

namespace Interpreter

variable {definition : Definition} {interpreter : Interpreter Listener}

theorem now_of_overflow {now : Timestamp} {step : StepResult} {halted : Interpreter Listener}
    (overflows : interpreter.commit definition now step = .overflow halted) :
    halted.now = interpreter.now := by
  unfold Interpreter.commit at overflows
  split at overflows
  · cases overflows
  · split at overflows
    · next timers leads =>
      cases overflows
      have same := interpreter.now_timersAfter definition step
      rw [leads] at same
      exact same
    · cases overflows

end Interpreter

namespace Execution

variable {program : Program σ Listener} {execution : Execution σ Listener} {now : Timestamp}
variable {rest : List (Work σ Listener)} {step : RunningStep (Work σ Listener)} {bound : Nat}

theorem now_stepNext :
    (execution.stepNext program now rest step).interpreter.now = execution.interpreter.now := by
  unfold stepNext
  split
  · unfold finish
    split
    · rfl
    · next overflows => exact Interpreter.now_of_overflow overflows
    · next isPublished => exact (Interpreter.published_of_commit isPublished).now_eq
  · simp only
    split <;> rfl

theorem now_advanceNext {limit : Duration} {fired : Nat}
    {resume : Except InterpreterError Nat → Work σ Listener}
    (inTime : execution.interpreter.now.nanos ≤ bound) (reaches : limit.nanos ≤ bound) :
    (execution.advanceNext rest limit fired resume).interpreter.now.nanos ≤ bound := by
  simp only [advanceNext]
  split
  · show (execution.interpreter.now.latest limit).nanos ≤ bound
    rw [Duration.latest_nanos]
    exact max_le inTime reaches
  · next timer timers due =>
    have pop : execution.interpreter.timers.pop? limit = some (timer, timers) := by
      split at due
      · exact due
      · cases due
    obtain ⟨_, _, soon, rfl⟩ := Timers.pop?_spec pop
    rw [standsStill_deliver.now]
    show (execution.interpreter.now.latest timer.deadline).nanos ≤ bound
    rw [Duration.latest_nanos]
    exact max_le inTime (Nat.le_trans soon reaches)

/-- The clock has not passed a bound, and is not about to. -/
structure Within (bound : Nat) (execution : Execution σ Listener) : Prop where
  now : execution.interpreter.now.nanos ≤ bound
  work : execution.Keeps (.upTo bound)

/-- The clock moves only for work that is to move it, and no further than that is to. -/
theorem Within.now_le {next : Execution σ Listener} (within : execution.Within bound)
    (steps : execution.step? program now = some next) : next.interpreter.now.nanos ≤ bound := by
  obtain ⟨inTime, stacked⟩ := within
  cases isWork : execution.work with
  | nil => simp [step?, isWork] at steps
  | cons top rest =>
      have onTop : top.Keeps (.upTo bound) := stacked top (isWork ▸ List.mem_cons_self)
      rcases standsStill_of_step isWork steps with
        still | ⟨step, rfl, rfl⟩ | ⟨limit, fired, resume, rfl, rfl⟩
      · exact still.now ▸ inTime
      · rwa [now_stepNext]
      · cases onTop with
        | advancing _ reaches => exact now_advanceNext inTime reaches

/-- The clock does not pass a bound in a small step that does not ask for more. -/
theorem Within.next {next : Execution σ Listener} (within : execution.Within bound)
    (steps : execution.step? program now = some next)
    (asked : ∀ span ∈ execution.span?, execution.interpreter.now.nanos + span.nanos ≤ bound) :
    next.Within bound := by
  refine ⟨within.now_le steps, within.work.next (Terms.hereditary_upTo bound) ?_ steps⟩
  intro running top span limit resume onTop asks reaches
  show limit.nanos ≤ bound
  rw [← Duration.add?_eq_some.1 reaches]
  have isSpan : top.span? = some span := asks.span?_eq
  exact asked span (by simp [span?, onTop, running, isSpan])

end Execution

/-- The spans by which the clock of a running machine is to be moved in small steps, each at a
reading of its own. -/
def Program.spansAt (program : Program σ Listener) :
    List Timestamp → Execution σ Listener → List Duration
  | [], _ => []
  | now :: later, execution =>
    match execution.step? program now with
    | none => []
    | some next => execution.span?.toList ++ program.spansAt later next

/-- The length of some spans together, in nanoseconds. -/
def Duration.total (spans : List Duration) : Nat := (spans.map nanos).sum

@[simp]
theorem Duration.total_append {spans more : List Duration} :
    total (spans ++ more) = total spans + total more := by simp [total]

namespace Execution

variable {program : Program σ Listener} {start execution : Execution σ Listener}
variable {now : Timestamp} {readings later : List Timestamp} {bound : Nat}

theorem spansAt_of_no_work (noWork : start.work = []) : program.spansAt readings start = [] := by
  cases readings <;> simp [Program.spansAt, step?, noWork]

theorem spansAt_cons (steps : start.step? program now = some execution) :
    program.spansAt (now :: later) start =
      start.span?.toList ++ program.spansAt later execution := by
  rw [Program.spansAt, steps]

theorem spansAt_append :
    program.spansAt (readings ++ later) start =
      program.spansAt readings start ++
        program.spansAt later (start.runAt program readings) := by
  induction readings generalizing start with
  | nil => rfl
  | cons now readings ih =>
      simp only [List.cons_append, runAt, Program.spansAt]
      cases steps : start.step? program now with
      | none => exact (spansAt_of_no_work (step?_eq_none.1 steps)).symm
      | some next => simp [ih]

/-- The clock moves no further than by all spans that have been asked for. -/
theorem Within.along (within : start.Within bound) (readings : List Timestamp) :
    (start.runAt program readings).Within
      (bound + Duration.total (program.spansAt readings start)) := by
  induction readings generalizing start bound with
  | nil => exact within
  | cons now readings ih =>
      cases steps : start.step? program now with
      | none =>
          have noWork := step?_eq_none.1 steps
          rw [runAt_of_no_work noWork, spansAt_of_no_work noWork]
          exact within
      | some next =>
          rw [runAt_cons steps, spansAt_cons steps, Duration.total_append, ← Nat.add_assoc]
          have farther : start.Within (bound + Duration.total start.span?.toList) :=
            ⟨within.now.trans (Nat.le_add_right _ _),
              fun work member => (within.work work member).upTo_mono (Nat.le_add_right _ _)⟩
          refine ih (farther.next steps fun span asked => ?_)
          simp [Option.mem_def.1 asked, Duration.total, within.now]

/-- While all spans that are asked for and the longest delay add up to less than the range, no
sum is beyond it. -/
theorem Within.not_exceeds {longest : Duration} {earlier : List Timestamp}
    (within : start.Within bound) (now : Timestamp)
    (delays : ∀ key delayed, program.definition.delayed? key = some delayed →
      delayed.delay ≤ longest)
    (inRange : bound + Duration.total (program.spansAt (earlier ++ [now]) start) + longest.nanos <
      18_446_744_073_709_551_616 * 1_000_000_000) :
    ¬ (start.runAt program earlier).Exceeds program := by
  have inTime : (start.runAt program earlier).interpreter.now.nanos ≤ _ :=
    (within.along earlier).now
  rw [spansAt_append, Duration.total_append] at inRange
  rintro (⟨asked, beyond⟩ | ⟨_, _, ⟨key, delay⟩, entered, beyond⟩)
  · rw [Duration.add?_eq_none] at beyond
    cases steps : (start.runAt program earlier).step? program now with
    | none => simp [span?, step?_eq_none.1 steps] at asked
    | some next =>
        rw [spansAt_cons steps, asked, Duration.total_append] at inRange
        simp only [Option.toList_some, Duration.total, List.map_cons, List.map_nil,
          List.sum_cons, List.sum_nil] at inRange inTime
        omega
  · rw [Duration.add?_eq_none] at beyond
    obtain ⟨_, delayed, found, rfl⟩ := Definition.mem_timersOf.1 entered
    have notLonger := delays key delayed found
    rw [Duration.le_def] at notLonger
    simp only at beyond
    omega

end Execution

namespace Program

variable {program : Program σ Listener} {i : Interpreter Listener}
variable {execution : Execution σ Listener} {step : RunningStep (Work σ Listener)}

/-- New or restored, a machine starts with its clock at zero. -/
theorem Begins.atZero (begins : program.Begins i) : i.now = .zero := by
  obtain ⟨lifecycle, configuration, context, history, rfl⟩ := begins.exists_assemble
  simp only [Interpreter.now, Interpreter.assemble]
  split
  · exact Timers.now_armAll
  · rfl

/-- A step that is about to be committed owns the interpreter. -/
theorem Orderly.busy_of_ready (orderly : program.Orderly execution)
    (ready : execution.Ready step) : execution.interpreter.busy = true := by
  obtain ⟨_, _, isWork⟩ := ready
  obtain ⟨_, sound⟩ := orderly.sound isWork
  obtain ⟨_, shaped, owns⟩ := sound.ready
  cases shaped
  exact owns.isBusy

theorem orderly_runAt (orderly : program.Orderly execution) (readings : List Timestamp) :
    program.Orderly (execution.runAt program readings) := by
  induction readings generalizing execution with
  | nil => exact orderly
  | cons now readings ih =>
      unfold Execution.runAt
      split
      · exact orderly
      · next steps => exact ih (orderly.next ⟨now, steps⟩)

/-- A run leaves the range of the clock exactly if it comes to a sum beyond it, which it does not
while all spans asked for and the longest delay add up to less than the range. If the sum is a
deadline, the step that was to arm it stays in progress, with nothing of it done but that timers
are disarmed and armed, and the interpreter stays busy for good. -/
theorem leaves_clock_range_iff (begins : program.Begins i) (memory : σ)
    (code : Routine σ Listener Unit) (readings : List Timestamp) :
    let start := Execution.ofClient i memory code
    let last := start.runAt program readings
    (last.overflowed = true ↔ ∃ earlier now later, readings = earlier ++ now :: later ∧
      (start.runAt program earlier).Exceeds program) ∧
    (∀ longest : Duration,
      (∀ key delayed, program.definition.delayed? key = some delayed → delayed.delay ≤ longest) →
      Duration.total (program.spansAt readings start) + longest.nanos <
        18_446_744_073_709_551_616 * 1_000_000_000 →
      last.overflowed = false) ∧
    (∀ earlier now later step, readings = earlier ++ now :: later →
      (start.runAt program earlier).ArmsBeyond program step →
      let before := (start.runAt program earlier).interpreter
      last.interpreter = { before with
        timers := (before.timersAfter program.definition step.result).1 } ∧
      last.interpreter.busy = true ∧ last.work = []) := by
  intro start last
  have orderly : program.Orderly start := orderly_ofClient begins
  have leaves : last.overflowed = true ↔ _ := Execution.overflowed_runAt_iff orderly rfl
  refine ⟨leaves, fun longest delays inRange => ?_, ?_⟩
  · have within : start.Within 0 := by
      refine ⟨?_, fun work member => ?_⟩
      · show i.now.nanos ≤ 0
        rw [begins.atZero]
        exact le_rfl
      · obtain rfl := List.mem_singleton.1 member
        exact .client trivial
    rw [← Bool.not_eq_true, leaves]
    rintro ⟨earlier, now, later, rfl, exceeds⟩
    refine within.not_exceeds now delays ?_ exceeds
    rw [List.append_cons, Execution.spansAt_append, Duration.total_append] at inRange
    omega
  · rintro earlier now later step rfl ⟨running, ready, beyond⟩
    have busy := (orderly_runAt orderly earlier).busy_of_ready ready
    obtain ⟨nothing, rest, isWork⟩ := ready
    have steps : (start.runAt program earlier).step? program now =
        some ((start.runAt program earlier).finish program now rest step) := by
      simp [Execution.step?, isWork, Execution.stepNext, nothing]
    have ends : last = (start.runAt program earlier).finish program now rest step := by
      simp only [last]
      rw [Execution.runAt_append, Execution.runAt_cons steps,
        Execution.finish_of_beyond running beyond]
      exact Execution.runAt_of_no_work rfl
    rw [ends, Execution.finish_of_beyond running beyond]
    exact ⟨rfl, busy, rfl⟩

/-- The clock of the hall is moved to the end of its range, and then its door is opened. -/
def openedTooLate : Execution Unit Unit :=
  .ofClient (.fresh MachineSpec.hall.resolved none) () do
    let _ ← Routine.request .start
    let _ ← Routine.request (.advance
      ⟨18_446_744_073_709_551_616 * 1_000_000_000 - 1, by decide⟩)
    let _ ← Routine.request (.send "open")

/-- A step in progress on top of the work that has no action left to run. -/
def actedOut? (execution : Execution σ Listener) : Option (RunningStep (Work σ Listener)) :=
  execution.work.head?.bind fun
    | .stepping step => if step.pending.isEmpty then some step else none
    | _ => none

theorem ready_of_actedOut? (isStep : actedOut? execution = some step) : execution.Ready step := by
  unfold actedOut? at isStep
  cases isWork : execution.work with
  | nil => simp [isWork] at isStep
  | cons work rest =>
      cases work with
      | stepping running =>
          simp only [isWork, List.head?_cons, Option.bind_some, Option.ite_none_right_eq_some,
            List.isEmpty_iff] at isStep
          obtain ⟨nothing, rfl⟩ := isStep.imp_right Option.some.inj
          exact ⟨nothing, rest, isWork⟩
      | _ => simp [isWork] at isStep

/-- The door that opens is to fall shut beyond the range of the clock. -/
theorem openedTooLate_armsBeyond :
    ∃ step,
      (openedTooLate.runAt quietHall (List.replicate 10 default)).ArmsBeyond quietHall step := by
  have facts : ((openedTooLate.runAt quietHall (List.replicate 10 default)).interpreter.isRunning,
      (openedTooLate.runAt quietHall (List.replicate 10 default)).interpreter.now.nanos) =
      (true, 18_446_744_073_709_551_616 * 1_000_000_000 - 1) := by cbv
  have opening : (actedOut? (openedTooLate.runAt quietHall (List.replicate 10 default))).map
      (·.plan.entered) = some [3] := by cbv
  have opened : quietHall.definition.timersOf [3] = [(⟨3, 0⟩, .ofMillis 50)] := by cbv
  obtain ⟨running, atEnd⟩ := Prod.mk.inj facts
  obtain ⟨step, isStep, entered⟩ := Option.map_eq_some_iff.1 opening
  refine ⟨step, running, ready_of_actedOut? isStep, (⟨3, 0⟩, .ofMillis 50), ?_, ?_⟩
  · simp [entered, opened]
  · rw [Duration.add?_eq_none, atEnd]
    decide

/-- The hall is left with its door half open. -/
theorem door_stays_half_open :
    quietHall.Begins (.fresh MachineSpec.hall.resolved none) ∧
      (openedTooLate.runAt quietHall (List.replicate 12 default)).overflowed = true ∧
      (openedTooLate.runAt quietHall (List.replicate 12 default)).interpreter.busy = true ∧
      (openedTooLate.runAt quietHall (List.replicate 12 default)).work = [] := by
  have isNew : quietHall.Begins (.fresh MachineSpec.hall.resolved none) := .inl ⟨none, by cbv⟩
  obtain ⟨leaves, _, stuck⟩ := leaves_clock_range_iff isNew () _ (List.replicate 12 default)
  obtain ⟨step, beyond⟩ := openedTooLate_armsBeyond
  have isSplit : List.replicate 12 (default : Timestamp) =
      List.replicate 10 default ++ default :: [default] := rfl
  obtain ⟨_, busy, noWork⟩ := stuck _ _ _ step isSplit beyond
  exact ⟨isNew, leaves.2 ⟨_, _, _, isSplit, .arming beyond⟩, busy, noWork⟩

end Program

end Statechart
