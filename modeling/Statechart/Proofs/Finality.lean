import Statechart.Proofs.ActiveLeaves
import Statechart.Proofs.Enactment
import Statechart.Proofs.Restart

/-!
# Finality

In a legal configuration a state has settled exactly if it is active and all active leaves within it
are final. A machine that runs has not settled, and one that is done has: so while it is idle its
status tells whether all its active leaves are final.
-/

namespace Statechart

variable {σ Listener : Type}

namespace Configuration

open StateTree

variable {tree : StateTree} {active : Configuration} {n c : Nat}

theorem isInFinal_of_compound (isCompound : tree.kind n = .compound) :
    isInFinal tree active n = true ↔
      ∃ c, (tree.children n).find? active.contains = some c ∧ isInFinal tree active c = true := by
  rw [isInFinal, isCompound]
  simp only
  split
  · next child found => simp [found]
  · next missing => simp [missing]

theorem isInFinal_of_parallel (isParallel : tree.kind n = .parallel) :
    isInFinal tree active n = true ↔ ∀ c ∈ tree.children n, isInFinal tree active c = true := by
  rw [isInFinal, isParallel]
  simp

theorem isInFinal_of_leaf (isActive : n ∈ active) (isLeaf : tree.isLeaf n = true) :
    isInFinal tree active n = true ↔ tree.kind n = .final := by
  rw [isLeaf_eq] at isLeaf
  cases kind : tree.kind n with
  | compound | parallel => simp [kind, StateKind.isLeaf] at isLeaf
  | atomic => simp [isInFinal, kind]
  | final => simp [isInFinal, kind, StateSet.contains_iff, isActive]

section Legal

variable (linked : tree.Linked) (legal : Legal tree active)

include linked legal

/-- An active composite state has settled exactly if its active children have. -/
theorem isInFinal_of_active (isActive : n ∈ active) (composite : tree.isLeaf n = false) :
    isInFinal tree active n = true ↔
      ∀ c ∈ activeChildren tree active n, isInFinal tree active c = true := by
  cases kind : tree.kind n with
  | compound =>
      obtain ⟨c, isChild, childActive, unique⟩ := legal.compound isActive kind
      rw [isInFinal_of_compound kind, find_active_child isChild childActive unique,
        activeChildren_of_compound linked isChild childActive unique]
      simp
  | parallel =>
      simp only [isInFinal_of_parallel kind, mem_activeChildren]
      exact ⟨fun all c member => all c member.1, fun all c isChild =>
        all c ⟨isChild, legal.parallel isActive kind c isChild⟩⟩
  | atomic | final => simp [isLeaf_eq, kind, StateKind.isLeaf] at composite

/-- An active state has settled exactly if all active leaves within it are final. -/
theorem isInFinal_iff_of_active (isActive : n ∈ active) : isInFinal tree active n = true ↔
    ∀ m ∈ leavesWithin tree active n, tree.kind m = .final := by
  induction n using tree.induction_down with
  | step n ih =>
      cases isLeaf : tree.isLeaf n with
      | true =>
          rw [isInFinal_of_leaf isActive isLeaf, leavesWithin_of_leaf linked isActive isLeaf]
          simp
      | false =>
          simp only [isInFinal_of_active linked legal isActive isLeaf,
            (leavesWithin_perm linked legal isLeaf).mem_iff, List.mem_flatMap]
          constructor
          · rintro settled m ⟨c, member, isWithin⟩
            obtain ⟨isChild, childActive⟩ := mem_activeChildren.1 member
            exact (ih c isChild childActive).1 (settled c member) m isWithin
          · intro allFinal c member
            obtain ⟨isChild, childActive⟩ := mem_activeChildren.1 member
            exact (ih c isChild childActive).2 fun m isWithin => allFinal m ⟨c, member, isWithin⟩

/-- The root has settled exactly if all active leaves are final. -/
theorem settled_iff : isInFinal tree active root = true ↔
    ∀ m ∈ leaves tree active, tree.kind m = .final := by
  rw [isInFinal_iff_of_active linked legal legal.root, leavesWithin_root linked legal]

variable (inhabited : ∀ {n : Nat}, tree.kind n = .parallel → tree.children n ≠ [])

include inhabited

/-- Only active states have settled: below an inactive one nothing is active. -/
theorem active_of_isInFinal (settled : isInFinal tree active n = true) : n ∈ active := by
  induction n using tree.induction_down with
  | step n ih =>
      have fromChild : ∀ c ∈ tree.children n, isInFinal tree active c = true → n ∈ active :=
        fun c isChild childSettled =>
          legal.parent (ih c isChild childSettled) (linked.parent_iff.2 isChild)
      cases kind : tree.kind n with
      | compound =>
          obtain ⟨c, found, childSettled⟩ := (isInFinal_of_compound kind).1 settled
          exact fromChild c (List.mem_of_find?_eq_some found) childSettled
      | parallel =>
          obtain ⟨c, isChild⟩ := List.exists_mem_of_ne_nil _ (inhabited kind)
          exact fromChild c isChild ((isInFinal_of_parallel kind).1 settled c isChild)
      | atomic => simp [isInFinal, kind] at settled
      | final =>
          rw [isInFinal, kind] at settled
          exact StateSet.contains_iff.1 settled

/-- A state has settled exactly if it is active and all active leaves within it are final. -/
theorem isInFinal_iff : isInFinal tree active n = true ↔
    n ∈ active ∧ ∀ m ∈ leavesWithin tree active n, tree.kind m = .final := by
  constructor
  · intro settled
    have isActive := active_of_isInFinal linked legal inhabited settled
    exact ⟨isActive, (isInFinal_iff_of_active linked legal isActive).1 settled⟩
  · rintro ⟨isActive, allFinal⟩
    exact (isInFinal_iff_of_active linked legal isActive).2 allFinal

end Legal

end Configuration

namespace Program

open StateTree (root)

variable {program : Program σ Listener} {start : Interpreter Listener}

/-- A machine begins new or restored. If it is restored from a checkpoint that is marked done, all
its active leaves are final. -/
def BeginsTruly (program : Program σ Listener) (i : Interpreter Listener) : Prop :=
  (∃ limit, program.interpreter limit = .ok i) ∨
    ∃ limit checkpoint, program.restore limit checkpoint = .ok i ∧
      (checkpoint.status = .done →
        ∀ m ∈ Configuration.leaves program.definition.toStateTree i.configuration,
          program.definition.kind m = .final)

theorem BeginsTruly.begins (begins : program.BeginsTruly start) : program.Begins start :=
  begins.imp id fun ⟨limit, checkpoint, isRestored, _⟩ => ⟨limit, checkpoint, isRestored⟩

/-- What begins as done has come to its end. -/
theorem BeginsTruly.finished (wellFormed : program.definition.WellFormed)
    (begins : program.BeginsTruly start) (isDone : start.lifecycle = .done) :
    Configuration.isInFinal program.definition.toStateTree start.configuration root = true := by
  rcases begins with ⟨limit, isNew⟩ | ⟨limit, checkpoint, isRestored, truly⟩
  · rw [interpreter_eq isNew] at isDone
    cases isDone
  · obtain ⟨_, _, _, configuration, described, rfl⟩ := restore_eq_ok_iff.1 isRestored
    have resumed : program.resumes checkpoint.status configuration = .done := isDone
    rw [resumes] at resumed
    split at resumed
    · next settled => exact settled.2
    · have isMarked : checkpoint.status = .done := by
        cases status : checkpoint.status <;> simp [status, Lifecycle.resumed] at resumed ⊢
      have legal := Configuration.legal_of_ofValue wellFormed.linked described
      exact (Configuration.settled_iff wellFormed.linked legal).2 (truly isMarked)

section Run

variable {memory : σ} {code : Routine σ Listener Unit} {chronicle : Chronicle Listener}
variable {execution : Execution σ Listener}

/-- While a machine is idle that has been started and not stopped, its status tells whether all its
active leaves are final. -/
theorem RunsTo.status_done_iff (wellFormed : program.definition.WellFormed)
    (begins : program.BeginsTruly start)
    (run : program.RunsTo (.ofClient start memory code) chronicle execution)
    (isIdle : execution.interpreter.busy = false)
    (started : execution.interpreter.lifecycle ≠ .notStarted)
    (notStopped : execution.interpreter.lifecycle ≠ .stopped)
    (legal : Configuration.Legal program.definition.toStateTree
      execution.interpreter.configuration) :
    execution.interpreter.status = .done ↔
      ∀ m ∈ Configuration.leaves program.definition.toStateTree
        execution.interpreter.configuration, program.definition.kind m = .final := by
  obtain ⟨_, phase, restorable, settled, _⟩ := run.exists_restorable begins.begins isIdle
  have finished := run.finished (situated_ofClient begins.begins) (begins.finished wellFormed)
  rw [Interpreter.status, restorable.status,
    ← Configuration.settled_iff wellFormed.linked legal]
  cases lifecycle : execution.interpreter.lifecycle with
  | notStarted => exact absurd lifecycle started
  | stopped => exact absurd lifecycle notStopped
  | running =>
      rw [restorable.unfinished lifecycle (settled lifecycle)]
      simp [Lifecycle.status]
  | done =>
      rw [finished lifecycle]
      simp [Lifecycle.status]

end Run

/-- A state of a legal configuration has settled exactly if it is active and all active leaves
within it are final. So an idle machine that has been started and not stopped is done exactly if all
its active leaves are final. -/
theorem done_iff_leaves_final {machine : MachineSpec} {definition : Definition}
    (built : machine.build = .ok definition) :
    (∀ (active : Configuration) (n : Nat),
      Configuration.isLegal definition.toStateTree active = true →
      (Configuration.isInFinal definition.toStateTree active n = true ↔
        n ∈ active ∧ ∀ m ∈ Configuration.leaves definition.toStateTree active,
          definition.Within m n → definition.kind m = .final)) ∧
    ∀ {σ Listener : Type} (program : Program σ Listener) (start : Interpreter Listener)
      (memory : σ) (code : Routine σ Listener Unit) (chronicle : Chronicle Listener)
      (execution : Execution σ Listener), program.definition = definition →
      program.BeginsTruly start →
      program.RunsTo (.ofClient start memory code) chronicle execution →
      execution.interpreter.busy = false →
      execution.interpreter.lifecycle ≠ .notStarted →
      execution.interpreter.lifecycle ≠ .stopped →
      Configuration.isLegal definition.toStateTree execution.interpreter.configuration = true →
      (execution.interpreter.status = .done ↔
        ∀ m ∈ Configuration.leaves definition.toStateTree execution.interpreter.configuration,
          definition.kind m = .final) := by
  have wellFormed := MachineSpec.wellFormed_of_build built
  have legal_iff : ∀ active, Configuration.isLegal definition.toStateTree active = true ↔
      Configuration.Legal definition.toStateTree active :=
    fun _ => Configuration.isLegal_iff wellFormed.linked
  refine ⟨fun active n isLegal => ?_, ?_⟩
  · rw [Configuration.isInFinal_iff wellFormed.linked ((legal_iff active).1 isLegal)
      wellFormed.regions]
    refine and_congr_right fun _ => ⟨fun allFinal m isLeaf within => ?_,
      fun allFinal m isWithin => ?_⟩
    · obtain ⟨isActive, isLeaf⟩ := Configuration.mem_leaves.1 isLeaf
      exact allFinal m (Configuration.mem_leavesWithin.2 ⟨isActive, isLeaf, within⟩)
    · obtain ⟨isActive, isLeaf, within⟩ := Configuration.mem_leavesWithin.1 isWithin
      exact allFinal m (Configuration.mem_leaves.2 ⟨isActive, isLeaf⟩) within
  · rintro σ Listener program start memory code chronicle execution rfl begins run isIdle started
      notStopped isLegal
    exact run.status_done_iff wellFormed begins isIdle started notStopped
      ((legal_iff execution.interpreter.configuration).1 isLegal)

/-- A booth saved at its closing, as if it were still active. -/
def savedBooth : Checkpoint :=
  { (default : Checkpoint) with machine := "booth", value := .leaf "closed", status := .active }

/-- A booth that closes on greeting is done when its start is over, and one that is restored at its
closing is done at once, although it was marked active. -/
theorem closed_booth_is_done :
    MachineSpec.booth.build = .ok MachineSpec.booth.resolved ∧
      (calling.run (booth ["close"]) default 9).interpreter.busy = false ∧
      (calling.run (booth ["close"]) default 9).interpreter.status = .done ∧
      ∃ restored, (booth []).restore none savedBooth = .ok restored ∧
        restored.status = .done := by
  have run : (booth ["close"]).RunsTo calling _ (calling.run (booth ["close"]) default 9) :=
    runsTo_run default 9 calling
  have isClosed : (calling.run (booth ["close"]) default 9).interpreter.configuration =
      .ofList [0, 3] := by cbv
  have isDone : (calling.run (booth ["close"]) default 9).interpreter.lifecycle = .done := by cbv
  have isIdle : (calling.run (booth ["close"]) default 9).interpreter.busy = false := by cbv
  have described : Configuration.ofValue (booth []).definition.toStateTree savedBooth.value =
      .ok (.ofList [0, 3]) := by cbv
  have resumed : (booth []).resumes savedBooth.status (.ofList [0, 3]) = .done := by cbv
  have isRestored : (booth []).restore none savedBooth =
      .ok (.assemble (booth []).definition .done (.ofList [0, 3]) .empty {}) :=
    restore_eq_ok_iff.2 ⟨rfl, rfl, rfl, _, described, by rw [resumed]; rfl⟩
  have legal : Configuration.isLegal MachineSpec.booth.resolved.toStateTree (.ofList [0, 3]) =
      true := by decide +kernel
  have allFinal : ∀ m ∈ Configuration.leaves MachineSpec.booth.resolved.toStateTree
      (.ofList [0, 3]), MachineSpec.booth.resolved.kind m = .final := by decide +kernel
  obtain ⟨_, done_iff⟩ := done_iff_leaves_final MachineSpec.booth_built
  refine ⟨MachineSpec.booth_built, isIdle, ?_, _, isRestored, ?_⟩
  · refine (done_iff _ _ _ _ _ _ rfl (.inl ⟨none, rfl⟩) run isIdle (by simp [isDone])
      (by simp [isDone]) (by rwa [isClosed])).2 ?_
    rwa [isClosed]
  · exact (done_iff (booth []) _ () (.done ()) _ _ rfl
      (.inr ⟨none, savedBooth, isRestored, fun marked => by cases marked⟩) .refl rfl
      (fun unstarted => by cases unstarted) (fun stopped => by cases stopped) legal).2 allFinal

end Program

end Statechart
