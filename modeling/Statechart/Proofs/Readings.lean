import Statechart.Proofs.Chronicle

/-!
# Readings

Runs along a list of readings of the clock, one for each small step. The readings end up in
the records of the history; without these dates what happens at one reading is what happens
at any other.
-/

namespace Statechart

variable {σ Listener : Type}

/-- Small steps, each at a reading of its own, until the readings or the work are used up. -/
def Execution.runAt (program : Program σ Listener) :
    List Timestamp → Execution σ Listener → Execution σ Listener
  | [], execution => execution
  | now :: later, execution =>
    match execution.step? program now with
    | none => execution
    | some next => runAt program later next

/-- What happens in small steps, each at a reading of its own. -/
def Program.chronicleAt (program : Program σ Listener) :
    List Timestamp → Execution σ Listener → Chronicle Listener
  | [], _ => []
  | now :: later, execution =>
    match execution.step? program now with
    | none => []
    | some next => program.happenings now execution ++ program.chronicleAt later next

/-- A step has run all its actions and is to be committed next. -/
def Execution.Ready (execution : Execution σ Listener) (step : RunningStep (Work σ Listener)) :
    Prop := step.pending = [] ∧ ∃ rest, execution.work = .stepping step :: rest

namespace Execution

variable {program : Program σ Listener} {readings later : List Timestamp}
variable {start execution : Execution σ Listener} {now : Timestamp}

theorem runAt_of_no_work (noWork : start.work = []) : start.runAt program readings = start := by
  cases readings <;> simp [runAt, step?, noWork]

theorem chronicleAt_of_no_work (noWork : start.work = []) :
    program.chronicleAt readings start = [] := by
  cases readings <;> simp [Program.chronicleAt, step?, noWork]

theorem runAt_cons (steps : start.step? program now = some execution) :
    start.runAt program (now :: later) = execution.runAt program later := by
  rw [runAt, steps]

theorem chronicleAt_cons (steps : start.step? program now = some execution) :
    program.chronicleAt (now :: later) start =
      program.happenings now start ++ program.chronicleAt later execution := by
  rw [Program.chronicleAt, steps]

/-- Only without work no small step can be made. -/
theorem step?_eq_none : start.step? program now = none ↔ start.work = [] := by
  cases isWork : start.work with
  | nil => simp [step?, isWork]
  | cons work rest =>
      simp only [step?, isWork, reduceCtorEq, iff_false]
      cases work with
      | notifying subscribers snapshot => cases subscribers <;> simp
      | _ => simp

theorem runAt_append :
    start.runAt program (readings ++ later) =
      (start.runAt program readings).runAt program later := by
  induction readings generalizing start with
  | nil => rfl
  | cons now readings ih =>
      simp only [List.cons_append, runAt]
      cases steps : start.step? program now with
      | none => exact (runAt_of_no_work (step?_eq_none.1 steps)).symm
      | some next => exact ih

theorem chronicleAt_append :
    program.chronicleAt (readings ++ later) start =
      program.chronicleAt readings start ++
        program.chronicleAt later (start.runAt program readings) := by
  induction readings generalizing start with
  | nil => rfl
  | cons now readings ih =>
      simp only [List.cons_append, runAt, Program.chronicleAt]
      cases steps : start.step? program now with
      | none => exact (chronicleAt_of_no_work (step?_eq_none.1 steps)).symm
      | some next => simp [ih]

end Execution

namespace Program

variable {program : Program σ Listener} {start execution : Execution σ Listener}
variable {chronicle : Chronicle Listener}

theorem runsTo_runAt (readings : List Timestamp) :
    program.RunsTo start (program.chronicleAt readings start) (start.runAt program readings) := by
  induction readings generalizing start with
  | nil => exact .refl
  | cons now readings ih =>
      rw [chronicleAt, Execution.runAt]
      cases steps : start.step? program now with
      | none => exact .refl
      | some next =>
          have first : program.RunsTo start (program.happenings now start) next := by
            simpa using RunsTo.refl.tail steps
          exact first.trans ih

/-- Every run goes along some readings: what is shown along all readings holds of all runs. -/
theorem RunsTo.exists_readings (run : program.RunsTo start chronicle execution) :
    ∃ readings, start.runAt program readings = execution ∧
      program.chronicleAt readings start = chronicle := by
  induction run with
  | refl => exact ⟨[], rfl, rfl⟩
  | @tail _ before after now _ steps ih =>
      obtain ⟨readings, rfl, rfl⟩ := ih
      refine ⟨readings ++ [now], ?_, ?_⟩
      · rw [Execution.runAt_append, Execution.runAt_cons steps]
        rfl
      · rw [Execution.chronicleAt_append, Execution.chronicleAt_cons steps, chronicleAt,
          List.append_nil]

section Ready

variable {now : Timestamp}

theorem happenings_of_ready {step : RunningStep (Work σ Listener)} (ready : execution.Ready step) :
    program.happenings now execution =
      execution.interpreter.ended program.definition now step.result := by
  obtain ⟨nothingPending, rest, isWork⟩ := ready
  simp only [happenings, isWork, nothingPending]

theorem commitments_requested {interpreter : Interpreter Listener} {definition : Definition}
    (request : Request Listener) :
    Chronicle.commitments (interpreter.requested definition request) = [] := by
  cases request with
  | send event => cases running : interpreter.isRunning <;>
      simp [Interpreter.requested, running, Happening.committed?]
  | stop => cases lifecycle : interpreter.lifecycle <;>
      simp [Interpreter.requested, lifecycle, Happening.committed?]
  | _ => rfl

theorem commitments_fired {interpreter : Interpreter Listener} (limit : Duration) :
    Chronicle.commitments (interpreter.fired limit) = [] := by
  unfold Interpreter.fired
  split
  · split <;> rfl
  · rfl

/-- Only a step that is to be committed depends on the reading of the clock, and makes a
record. -/
theorem happenings_of_unready (now other : Timestamp)
    (unready : ∀ step, ¬ execution.Ready step) :
    Chronicle.commitments (program.happenings now execution) = [] ∧
      program.happenings other execution = program.happenings now execution := by
  unfold happenings
  cases isWork : execution.work with
  | nil => exact ⟨rfl, rfl⟩
  | cons work rest =>
      cases work with
      | client code =>
          cases code with
          | ask request next => exact ⟨commitments_requested request, rfl⟩
          | _ => exact ⟨rfl, rfl⟩
      | listening code =>
          cases code with
          | ask request next => exact ⟨commitments_requested request, rfl⟩
          | _ => exact ⟨rfl, rfl⟩
      | acting step call code =>
          cases code with
          | ask request next => exact ⟨commitments_requested request, rfl⟩
          | done result =>
              cases result <;> cases origin : step.origin <;>
                simp [origin, Happening.committed?]
          | _ => exact ⟨rfl, rfl⟩
      | stepping step =>
          cases pending : step.pending with
          | nil => exact absurd ⟨pending, rest, isWork⟩ (unready step)
          | cons call pending => simp [pending]
      | notifying subscribers snapshot => cases subscribers <;> exact ⟨rfl, rfl⟩
      | draining drain =>
          refine ⟨?_, rfl⟩
          cases isQueue : execution.interpreter.queue <;> simp [isQueue, Happening.committed?]
      | advancing limit fired resume => exact ⟨commitments_fired limit, rfl⟩

end Ready

end Program

section Undated

/-- A record without its date. -/
def StepRecord.undated (record : StepRecord) : StepRecord := { record with timestamp := default }

def Commitment.undated (commitment : Commitment) : Commitment :=
  { commitment with record := commitment.record.map StepRecord.undated }

def Happening.undated : Happening Listener → Happening Listener
  | .committed commitment => .committed commitment.undated
  | happening => happening

namespace History

/-- A history without its dates. -/
def undated (history : History) : History :=
  { history with records := history.records.map StepRecord.undated }

variable {history : History}

theorem undated_push {record : StepRecord} :
    (history.push record).undated = history.undated.push record.undated := by
  unfold push
  simp only [undated, List.length_map]
  cases isLimit : history.limit with
  | none => simp
  | some limit =>
      by_cases isZero : limit = 0
      · simp [isZero, isLimit]
      · simp [isZero, List.map_drop]

theorem pushAll_append {records later : List StepRecord} :
    history.pushAll (records ++ later) = (history.pushAll records).pushAll later :=
  List.foldl_append

theorem undated_pushAll {records : List StepRecord} :
    (history.pushAll records).undated =
      history.undated.pushAll (records.map StepRecord.undated) := by
  unfold pushAll
  induction records generalizing history with
  | nil => rfl
  | cons record records ih => rw [List.foldl_cons, ih, undated_push, List.map_cons, List.foldl_cons]

end History

namespace Chronicle

/-- What happens, without the dates of the records. -/
def undated (chronicle : Chronicle Listener) : Chronicle Listener := chronicle.map Happening.undated

/-- The records of the steps that have taken effect. -/
def records (chronicle : Chronicle Listener) : List StepRecord :=
  (commitments chronicle).filterMap (·.record)

variable {chronicle later : Chronicle Listener}

@[simp]
theorem undated_nil : undated ([] : Chronicle Listener) = [] := rfl

@[simp]
theorem undated_append : undated (chronicle ++ later) = undated chronicle ++ undated later :=
  List.map_append

@[simp]
theorem records_nil : records ([] : Chronicle Listener) = [] := rfl

@[simp]
theorem records_append : records (chronicle ++ later) = records chronicle ++ records later := by
  simp [records]

theorem entered_undated : entered (undated chronicle) = entered chronicle := by
  induction chronicle with
  | nil => rfl
  | cons happening rest ih =>
      cases happening <;>
        simp_all [undated, Happening.undated, Happening.entered?]

theorem commitments_undated :
    commitments (undated chronicle) = (commitments chronicle).map Commitment.undated := by
  induction chronicle with
  | nil => rfl
  | cons happening rest ih =>
      cases happening <;>
        simp_all [undated, Happening.undated, Happening.committed?]

theorem records_undated :
    records (undated chronicle) = (records chronicle).map StepRecord.undated := by
  rw [records, records, commitments_undated, List.filterMap_map, List.map_filterMap]
  rfl

theorem heard_undated (number : Nat) :
    heard (undated chronicle) number = heard chronicle number := by
  induction chronicle with
  | nil => rfl
  | cons happening rest ih =>
      cases happening <;>
        simp_all [undated, Happening.undated, Happening.heard?]

end Chronicle

end Undated

end Statechart
