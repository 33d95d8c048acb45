import Statechart.Proofs.Restoration

/-!
# Restored histories

A restored machine goes on with the history of its checkpoint. A limit that it is given holds
from then on: the history is the latest of the saved records and of those that have been added
since. A machine that is given no limit is to keep everything, but it keeps the limit that was
saved with the history.
-/

namespace Statechart

variable {σ Listener : Type}

namespace History

variable {history : History} {limit : UInt64} {records later : List StepRecord}

/-- The latest records, as many as a limit allows. -/
def latest : Option UInt64 → List StepRecord → List StepRecord
  | none, records => records
  | some limit, records => records.drop (records.length - limit.toNat)

theorem bounded_pushAll (limit : UInt64) (records : List StepRecord) :
    (bounded limit).pushAll records = ⟨latest (some limit) records, some limit⟩ :=
  History.ext (records_bounded_pushAll limit) (by simp [bounded])

theorem pushAll_of_unlimited (unlimited : history.limit = none) :
    history.pushAll records = ⟨history.records ++ records, none⟩ :=
  History.ext (records_pushAll unlimited) (by simp [unlimited])

/-- What the latest records were does not matter to what they are later. -/
theorem latest_latest_append :
    latest (some limit) (latest (some limit) records ++ later) =
      latest (some limit) (records ++ later) := by
  have first := bounded_pushAll limit (records ++ later)
  have second := bounded_pushAll limit (latest (some limit) records ++ later)
  have shorter : latest (some limit) (latest (some limit) records) =
      latest (some limit) records := by
    simp only [latest, List.length_drop, List.drop_drop]
    congr 1
    omega
  rw [pushAll_append, bounded_pushAll] at first second
  rw [shorter] at second
  exact congrArg (·.records) (second.symm.trans first)

theorem push_of_limit {record : StepRecord} (isLimit : history.limit = some limit)
    (positive : limit ≠ 0) :
    history.push record = ⟨latest (some limit) (history.records ++ [record]), some limit⟩ := by
  have atLeastOne : 0 < limit.toNat :=
    Nat.pos_of_ne_zero fun isZero => positive (UInt64.toNat_inj.1 isZero)
  have fewer : history.records.length + 1 - limit.toNat ≤ history.records.length := by omega
  simp only [push, isLimit, positive, if_false, latest, List.length_append, List.length_singleton,
    List.drop_append_of_le_length fewer]

/-- A history with a limit is cut down to it as soon as something is added; one that may hold
nothing stays as it is. -/
theorem pushAll_of_limit (isLimit : history.limit = some limit) :
    history.pushAll records =
      ⟨if records = [] ∨ limit = 0 then history.records
        else latest (some limit) (history.records ++ records), some limit⟩ := by
  induction records using List.reverseRecOn with
  | nil => exact History.ext (by simp [pushAll]) isLimit
  | append_singleton records record ih =>
      rw [pushAll_concat, ih]
      by_cases isZero : limit = 0
      · simp [push, isZero]
      · rw [push_of_limit rfl isZero]
        by_cases isFirst : records = []
        · simp [isFirst, isZero]
        · simp [isFirst, isZero, latest_latest_append]

end History

namespace Program

open Chronicle

variable {program : Program σ Listener} {limit : Option UInt64} {checkpoint : Checkpoint}
variable {execution : Execution σ Listener} {restored : Interpreter Listener}
variable {chronicle : Chronicle Listener} {memory : σ} {code : Routine σ Listener Unit}

theorem history_of_restore (isRestored : program.restore limit checkpoint = .ok restored) :
    restored.history = Interpreter.boundHistory limit checkpoint.history := by
  obtain ⟨_, _, _, _, _, rfl⟩ := restore_eq_ok_iff.1 isRestored
  rfl

/-- The history of a restored machine along a run. -/
theorem RunsTo.history_restored (isRestored : program.restore limit checkpoint = .ok restored)
    (run : program.RunsTo (.ofClient restored memory code) chronicle execution) :
    execution.interpreter.history =
      (Interpreter.boundHistory limit checkpoint.history).pushAll (records chronicle) := by
  rw [run.history (situated_ofClient (.inr ⟨limit, checkpoint, isRestored⟩)),
    ← history_of_restore isRestored]
  rfl

/-- A machine is restored with a limit for its history, or with none to keep everything. That
holds in every run exactly if a limit is given or the checkpoint's own history has none: else
the limit of the checkpoint stays, and cuts the history down with the next record. -/
theorem restored_history_limit_iff (isRestored : program.restore limit checkpoint = .ok restored)
    (memory : σ) :
    ((∀ code chronicle execution,
        program.RunsTo (.ofClient restored memory code) chronicle execution →
        execution.interpreter.history =
          ⟨History.latest limit (checkpoint.history.records ++ records chronicle), limit⟩) ↔
      (limit = none → checkpoint.history.limit = none)) ∧
    ∀ own, limit = none → checkpoint.history.limit = some own →
      ∀ code chronicle execution,
        program.RunsTo (.ofClient restored memory code) chronicle execution →
        execution.interpreter.history =
          ⟨if records chronicle = [] ∨ own = 0 then checkpoint.history.records
            else History.latest (some own) (checkpoint.history.records ++ records chronicle),
            some own⟩ := by
  refine ⟨⟨fun bounds unlimited => ?_, fun agrees code chronicle execution run => ?_⟩, ?_⟩
  · subst unlimited
    have atFirst := bounds (.done ()) [] _ .refl
    rw [RunsTo.history_restored isRestored .refl] at atFirst
    exact congrArg (·.limit) atFirst
  · rw [run.history_restored isRestored]
    cases limit with
    | none => exact History.pushAll_of_unlimited (agrees rfl)
    | some limit =>
        rw [Interpreter.boundHistory, ← History.pushAll_append]
        exact History.bounded_pushAll limit _
  · rintro own rfl isOwn code chronicle execution run
    rw [run.history_restored isRestored]
    exact History.pushAll_of_limit isOwn

/-- The hall after someone has been there, with the last two steps in its history. -/
def toured : Interpreter Unit :=
  ((Execution.ofClient (.fresh MachineSpec.hall.resolved (some 2)) () touring).run hall default
    40).interpreter

/-- Restored to remember a single step, the hall does so whatever happens to it. Restored to
remember everything, it still remembers no more than two. -/
theorem toured_hall_keeps_two :
    (∃ restored,
      hall.restore (some 1) (toured.checkpoint hall.definition default default) = .ok restored ∧
      ∀ code chronicle execution, hall.RunsTo (.ofClient restored () code) chronicle execution →
        execution.interpreter.history =
          ⟨History.latest (some 1) (toured.history.records ++ records chronicle), some 1⟩) ∧
    ∃ restored,
      hall.restore none (toured.checkpoint hall.definition default default) = .ok restored ∧
      (¬ ∀ code chronicle execution,
        hall.RunsTo (.ofClient restored () code) chronicle execution →
          execution.interpreter.history =
            ⟨History.latest none (toured.history.records ++ records chronicle), none⟩) ∧
      ∀ code chronicle execution, hall.RunsTo (.ofClient restored () code) chronicle execution →
        execution.interpreter.history.records.length ≤ 2 := by
  have accepted : ∀ limit, ∃ restored, hall.restore limit
      (toured.checkpoint hall.definition default default) = .ok restored := by
    intro limit
    have described : Configuration.ofValue hall.definition.toStateTree toured.snapshot.value =
        .ok (.ofList [0, 1, 2, 4, 5]) := by cbv
    exact ⟨_, restore_eq_ok_iff.2 ⟨rfl, rfl, by cbv, _, described, rfl⟩⟩
  have own : (toured.history.limit, toured.history.records.length) = (some 2, 2) := by cbv
  simp only [Prod.mk.injEq] at own
  obtain ⟨one, isOne⟩ := accepted (some 1)
  obtain ⟨all, isAll⟩ := accepted none
  obtain ⟨holds, keeps⟩ := restored_history_limit_iff isAll ()
  refine ⟨⟨one, isOne, (restored_history_limit_iff isOne ()).1.2 (fun other => by cases other)⟩,
    all, isAll, fun bounds => ?_, fun code chronicle execution run => ?_⟩
  · cases own.1.symm.trans (holds.1 bounds rfl)
  · rw [keeps 2 rfl own.1 code chronicle execution run]
    split
    · exact own.2.le
    · simp only [History.latest, List.length_drop]
      have : (2 : UInt64).toNat = 2 := rfl
      omega

end Program

end Statechart
