import Statechart.Proofs.Forgetful
import Statechart.Proofs.Notification
import Statechart.Proofs.TimerDiscipline

/-!
# Bounded histories

The history without a limit holds the steps of the run, from the initial value on, each
beginning where the one before has led. With a limit it holds the latest of the same
records, as long as no code looks at the history.
-/

namespace Statechart

variable {σ Listener : Type}

/-- Records lead from one value to another: each begins where the one before has led. -/
def StepRecord.Lead : StateValue → List StepRecord → StateValue → Prop
  | first, [], last => first = last
  | first, record :: records, last => record.source = first ∧ Lead record.target records last

namespace StepRecord

variable {first middle last : StateValue} {records later : List StepRecord} {record : StepRecord}

theorem Lead.append (leads : Lead first records middle) (onward : Lead middle later last) :
    Lead first (records ++ later) last := by
  induction records generalizing first with
  | nil =>
      obtain rfl : first = middle := leads
      exact onward
  | cons record records ih => exact ⟨leads.1, ih leads.2⟩

theorem Lead.source_head (leads : Lead first records last) (isFirst : record ∈ records.head?) :
    record.source = first := by
  cases records with
  | nil => cases isFirst
  | cons head rest =>
      obtain rfl : head = record := Option.some.inj isFirst
      exact leads.1

theorem Lead.target_last (leads : Lead first records last) (isLast : record ∈ records.getLast?) :
    record.target = last := by
  induction records generalizing first with
  | nil => cases isLast
  | cons head rest ih =>
      cases rest with
      | nil =>
          obtain rfl : head = record := Option.some.inj isLast
          exact leads.2
      | cons next rest => exact ih leads.2 (by simpa using isLast)

theorem Lead.isChain (leads : Lead first records last) :
    records.IsChain fun record next => record.target = next.source := by
  induction records generalizing first with
  | nil => exact .nil
  | cons head rest ih =>
      cases rest with
      | nil => exact .singleton head
      | cons next rest =>
          have onward := leads.2
          exact .cons_cons onward.1.symm (ih onward)

end StepRecord

namespace History

variable {history : History} {records : List StepRecord} {record : StepRecord}

@[simp]
theorem limit_push : (history.push record).limit = history.limit := by
  unfold push
  cases isLimit : history.limit with
  | none => simp
  | some limit => by_cases isZero : limit = 0 <;> simp [isZero, isLimit]

@[simp]
theorem limit_pushAll : (history.pushAll records).limit = history.limit := by
  unfold pushAll
  induction records generalizing history with
  | nil => rfl
  | cons record records ih => rw [List.foldl_cons, ih, limit_push]

theorem pushAll_concat : history.pushAll (records ++ [record]) =
    (history.pushAll records).push record := pushAll_append

/-- A history without a limit keeps all records. -/
theorem records_pushAll (unlimited : history.limit = none) :
    (history.pushAll records).records = history.records ++ records := by
  induction records using List.reverseRecOn with
  | nil => simp [pushAll]
  | append_singleton records record ih =>
      have stillUnlimited : (history.pushAll records).limit = none := by simp [unlimited]
      rw [pushAll_concat, push, stillUnlimited, ← List.append_assoc, ← ih]

/-- A bounded history keeps the latest records, as many as its limit. -/
theorem records_bounded_pushAll (limit : UInt64) :
    ((bounded limit).pushAll records).records = records.drop (records.length - limit.toNat) := by
  induction records using List.reverseRecOn with
  | nil => simp [pushAll, bounded]
  | append_singleton records record ih =>
      have sameLimit : ((bounded limit).pushAll records).limit = some limit := by simp [bounded]
      rw [pushAll_concat, push, sameLimit]
      by_cases isZero : limit = 0
      · subst isZero
        simp [ih]
      · have positive : 0 < limit.toNat := by
          rw [Nat.pos_iff_ne_zero]
          exact fun same => isZero (UInt64.toNat_inj.1 same)
        have fewer : records.length + 1 - limit.toNat ≤ records.length := by omega
        simp only [isZero, if_false, ih, List.length_drop, List.drop_drop, List.length_append,
          List.length_singleton]
        rw [List.drop_append_of_le_length fewer]
        congr 2
        omega

end History

namespace Program

open Chronicle

variable {program : Program σ Listener} {now : Timestamp} {phase next : Phase σ Listener}
variable {i after : Interpreter Listener} {happenings chronicle : Chronicle Listener}

/-- The value of a machine when it has just been entered. -/
def initialValue (program : Program σ Listener) : StateValue :=
  Configuration.value program.definition.toStateTree program.definition.initialConfiguration

/-- The records of the steps so far lead from the initial value to the one shown last. -/
structure Traced (program : Program σ Listener) (phase : Phase σ Listener)
    (i : Interpreter Listener) (chronicle : Chronicle Listener) : Prop where
  opening : Opening phase i chronicle
  shown : i.Shown program.definition
  leads : StepRecord.Lead program.initialValue (records chronicle) i.snapshot.value

/-- What a step makes of the value shown is told by its record; the initial entry has none,
and leads to the initial value. -/
theorem Traced.publish {step : RunningStep (Work σ Listener)}
    (traced : program.Traced (.step step) i chronicle) (settled : program.Settled (.step step) i)
    (published : Interpreter.Published program.definition now step.result i after)
    (commits : commitments happenings =
      [i.commitment after program.definition now step.result]) :
    StepRecord.Lead program.initialValue (records (chronicle ++ happenings))
      after.snapshot.value := by
  have isValue : after.snapshot.value =
      Configuration.value program.definition.toStateTree after.configuration := by
    rw [published.snapshot]
  cases origin : step.origin with
  | start resume =>
      have nothing : commitments chronicle = [] :=
        traced.opening.unstarted (.inl (by simp [Phase.isStarting, origin, Origin.isRecorded]))
      have noRecord : records (chronicle ++ happenings) = [] := by
        simp [records, nothing, commits, Interpreter.commitment, RunningStep.result, origin,
          Origin.isRecorded]
      have planned := settled.planned step rfl
      rw [Planned, origin] at planned
      rw [noRecord, isValue, published.configuration]
      simp only [StepRecord.Lead, initialValue, RunningStep.result, planned.1,
        Definition.initialPlan]
  | signal fired drain =>
      have oneRecord : records happenings =
          [⟨step.event, i.snapshot.value, after.snapshot.value, now⟩] := by
        simp [records, commits, Interpreter.commitment, RunningStep.result, origin,
          Origin.isRecorded, isValue]
      rw [records_append, oneRecord]
      exact traced.leads.append ⟨rfl, rfl⟩

theorem Move.traced (move : program.Move now phase i happenings next after)
    (settled : program.Settled phase i) (traced : program.Traced phase i chronicle) :
    program.Traced next after (chronicle ++ happenings) := by
  have shown := move.shown traced.shown
  refine ⟨move.opening traced.opening, shown, ?_⟩
  rcases move.publishes_or_keeps with ⟨step, rfl, _, _, published, commits⟩ | ⟨nothing, keeps⟩
  · exact traced.publish settled published commits
  · have sameRecords : records (chronicle ++ happenings) = records chronicle := by
      simp [records, nothing]
    rw [sameRecords, shown.value, keeps.configuration, ← traced.shown.value]
    exact traced.leads

/-- Steps after the initial entry have a record each. -/
theorem Opening.records_eq (opening : Opening phase i chronicle) :
    (commitments chronicle).tail.map (·.record) = (records chronicle).map some := by
  cases isCommitted : commitments chronicle with
  | nil => simp [records, isCommitted]
  | cons first later =>
      obtain ⟨isInitial, areRecorded⟩ := opening.recorded first later isCommitted
      rw [records, isCommitted, List.filterMap_cons_none isInitial, List.tail_cons]
      clear isCommitted
      induction later with
      | nil => rfl
      | cons commitment later ih =>
          obtain ⟨record, isRecord, _⟩ := areRecorded commitment (.head _)
          rw [List.map_cons, List.filterMap_cons_some isRecord, List.map_cons, isRecord,
            ih fun other member => areRecorded other (.tail _ member)]

section Run

variable {start execution : Execution σ Listener} {interpreter bounded : Interpreter Listener}
variable {memory : σ} {code : Routine σ Listener Unit} {limit : UInt64}

/-- All along a run the history is what it was, with the records of the steps since. -/
theorem RunsTo.history (run : program.RunsTo start chronicle execution)
    (situated : program.Situated phase start) :
    execution.interpreter.history = start.interpreter.history.pushAll (records chronicle) := by
  obtain ⟨last, timers, before, inRange, same⟩ := run.exists_inRange situated
  obtain ⟨_, _, history⟩ := before.induct
    (fun _ i chronicle => i.history = start.interpreter.history.pushAll (records chronicle))
    inRange situated rfl fun _ move history => by
      rw [move.history, history, records_append, History.pushAll_append]
      rfl
  rw [same]
  exact history

theorem RunsTo.traced (isNew : program.interpreter none = .ok interpreter)
    (run : program.RunsTo (.ofClient interpreter memory code) chronicle execution) :
    execution.interpreter.history.records = records chronicle ∧
      ∃ (phase : Phase σ Listener) (last : Interpreter Listener), Opening phase last chronicle ∧
        StepRecord.Lead program.initialValue (records chronicle)
          execution.interpreter.snapshot.value := by
  have begins : program.Begins interpreter := .inl ⟨none, isNew⟩
  obtain ⟨last, timers, before, inRange, same⟩ := run.exists_inRange (situated_ofClient begins)
  have isFresh := interpreter_eq isNew
  have initially : program.Traced .outside interpreter [] := {
    opening := ⟨fun _ => rfl, fun _ => .inr (.inl (by rw [isFresh]; rfl)),
      fun _ _ split => by cases split⟩
    shown := begins.shown
    leads := by rw [isFresh]; rfl }
  obtain ⟨phase, _, traced⟩ := before.induct program.Traced inRange (situated_ofClient begins)
    initially fun settled move traced => move.traced settled traced
  have history := run.history (situated_ofClient begins)
  have unlimited : (Execution.ofClient interpreter memory code).interpreter.history = {} := by
    rw [isFresh]
    rfl
  rw [unlimited] at history
  refine ⟨?_, phase, last.interpreter, traced.opening, ?_⟩
  · rw [history, History.records_pushAll rfl, List.nil_append]
  · rw [same]
    exact traced.leads

/-- With a limit an interpreter begins as without, but for the history. -/
theorem interpreter_bounded (isNew : program.interpreter none = .ok interpreter)
    (isBounded : program.interpreter (some limit) = .ok bounded) :
    bounded = interpreter.withHistory (.bounded limit) := by
  rw [interpreter_eq isNew, interpreter_eq isBounded]
  rfl

/-- Without a limit the history has a record of every step after the initial entry. The first
begins at the initial value, each begins where the one before has led, and the last leads to
the value shown. With a limit, and code that does not look at the history, a run as long,
whatever the readings of the clock, ends with the latest of these records, as many as the
limit allows. -/
theorem history_refines (isNew : program.interpreter none = .ok interpreter) (memory : σ)
    (code : Routine σ Listener Unit) (readings : List Timestamp) :
    let start := Execution.ofClient interpreter memory code
    let execution := start.runAt program readings
    let records := execution.interpreter.history.records
    (commitments (program.chronicleAt readings start)).tail.map (·.record) = records.map some ∧
    (∀ record ∈ records.head?, record.source = program.initialValue) ∧
    records.IsChain (fun record next => record.target = next.source) ∧
    (∀ record ∈ records.getLast?, record.target = execution.interpreter.snapshot.value) ∧
    (program.Forgetful → code.Forgetful → ∀ (limit : UInt64) bounded (others : List Timestamp),
      program.interpreter (some limit) = .ok bounded → others.length = readings.length →
      ((Execution.ofClient bounded memory code).runAt program
          others).interpreter.history.records.map StepRecord.undated =
        (records.drop (records.length - limit.toNat)).map StepRecord.undated) := by
  intro start execution records
  have run : program.RunsTo start (program.chronicleAt readings start) execution :=
    runsTo_runAt readings
  obtain ⟨isHistory, phase, last, opening, leads⟩ := run.traced isNew
  change records = _ at isHistory
  rw [isHistory]
  refine ⟨opening.records_eq, fun _ => leads.source_head, leads.isChain,
    fun _ => leads.target_last, ?_⟩
  intro isForgetful forgetful limit bounded others isBounded sameLength
  have startForgetful : start.Forgetful := List.forall_mem_singleton.2 (.client forgetful)
  obtain ⟨sameEnd, sameChronicle⟩ := runAt_withHistory (.bounded limit) isForgetful
    startForgetful sameLength
  have sameRecords := congrArg Chronicle.records sameChronicle
  rw [records_undated, records_undated] at sameRecords
  have isStart : Execution.ofClient bounded memory code = start.withHistory (.bounded limit) := by
    rw [interpreter_bounded isNew isBounded]
    rfl
  have kept : ((Execution.ofClient bounded memory code).runAt program
      others).interpreter.history = (History.bounded limit).pushAll
        (Chronicle.records (program.chronicleAt others (start.withHistory (.bounded limit)))) := by
    rw [isStart, sameEnd]
    rfl
  rw [kept, History.records_bounded_pushAll, List.map_drop, List.map_drop, sameRecords]
  congr 2
  simpa using congrArg List.length sameRecords

/-- Someone starts the hall, comes in, opens the door and waits. -/
def touring : Routine Unit Unit Unit := do
  let _ ← Routine.request .start
  let _ ← Routine.request (.send "motion")
  let _ ← Routine.request (.send "open")
  let _ ← Routine.request (.advance (.ofMillis 60))

theorem forgetful_touring : touring.Forgetful :=
  (Routine.forgetful_request (by simp)).bind fun _ =>
    (Routine.forgetful_request (by simp)).bind fun _ =>
      (Routine.forgetful_request (by simp)).bind fun _ =>
        (Routine.forgetful_request (by simp)).bind fun _ => Routine.forgetful_pure _

theorem forgetful_hall : hall.Forgetful where
  actions name action isAction call := by
    simp only [hall, Registry.action?, List.lookup_cons, List.lookup_nil] at isAction
    split at isAction
    · obtain rfl := Option.some.inj isAction
      exact (Routine.forgetful_request (by simp)).bind fun _ =>
        (Routine.forgetful_request (by simp)).bind fun _ => Routine.forgetful_pure _
    · cases isAction
  listeners _ _ := (Routine.forgetful_request (by simp)).bind fun _ => Routine.forgetful_pure _

/-- Of the steps of the hall a history bounded to two keeps the last two. -/
theorem hall_keeps_latest :
    ((Execution.ofClient (.fresh MachineSpec.hall.resolved (some 2)) () touring).runAt hall
        (List.replicate 40 ⟨1, 0, 0⟩)).interpreter.history.records.map (·.event) =
      ["after(30ms)#hall.light.on", "after(50ms)#hall.door.open"] := by
  have isNew : hall.interpreter none = .ok (.fresh MachineSpec.hall.resolved none) := by cbv
  have isBounded : hall.interpreter (some 2) = .ok (.fresh MachineSpec.hall.resolved (some 2)) := by
    cbv
  have events : ((Execution.ofClient (.fresh MachineSpec.hall.resolved none) () touring).runAt hall
      (List.replicate 40 default)).interpreter.history.records.map (·.event) =
      ["motion", "open", "after(30ms)#hall.light.on", "motion", "after(30ms)#hall.light.on",
        "after(50ms)#hall.door.open"] := by cbv
  obtain ⟨_, _, _, _, keeps⟩ := history_refines isNew () touring
    (List.replicate 40 default)
  have latest := congrArg (List.map (·.event)) (keeps forgetful_hall forgetful_touring 2 _
    (List.replicate 40 ⟨1, 0, 0⟩) isBounded (by simp))
  have count := congrArg List.length events
  simp only [List.length_map] at count
  simp only [List.map_map, List.map_drop, count] at latest
  exact latest.trans (congrArg (List.drop 4) events)

end Run

end Program

end Statechart
