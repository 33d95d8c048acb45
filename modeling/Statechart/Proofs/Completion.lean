import Statechart.Proofs.Legality
import Statechart.Step.Plan

/-!
# Completing the entered states

What the worklist of default descendants ends with: the states it began with are still
there, no entered state lacks a child, and every state that was added is a default
child of an entered state. A compound state that brings in its initial child has no
other active child, then or later.
-/

namespace Statechart

namespace Definition

variable {definition : Definition} {retained entering first : StateSet} {n c : Nat}

theorem mem_missing_of_compound (isCompound : definition.kind n = .compound) :
    c ∈ definition.missing retained entering n ↔
      definition.initial? n = some c ∧
        ∀ other ∈ definition.children n, other ∉ retained ∧ other ∉ entering := by
  simp only [missing, isCompound]
  split
  · next active =>
    obtain ⟨other, isChild, isActive⟩ := List.any_eq_true.1 active
    simp only [Bool.or_eq_true, StateSet.contains_iff] at isActive
    simp only [List.not_mem_nil, false_iff, not_and]
    intro _ inactive
    obtain ⟨notRetained, notEntering⟩ := inactive other isChild
    exact isActive.elim notRetained notEntering
  · next inactive =>
    simp only [List.any_eq_true, Bool.or_eq_true, StateSet.contains_iff, not_exists, not_and,
      not_or] at inactive
    simp only [Option.mem_toList, iff_self_and]
    exact fun _ => inactive

theorem mem_missing_of_parallel (isParallel : definition.kind n = .parallel) :
    c ∈ definition.missing retained entering n ↔
      c ∈ definition.children n ∧ c ∉ retained ∧ c ∉ entering := by
  simp [missing, isParallel, List.mem_filter, ← Bool.not_eq_true, StateSet.contains_iff]

theorem missing_subset (isMissing : c ∈ definition.missing retained entering n) :
    c ∈ definition.defaultChildren n := by
  cases kind : definition.kind n with
  | compound =>
      have isInitial := ((mem_missing_of_compound kind).1 isMissing).1
      simp [defaultChildren, kind, isInitial]
  | parallel =>
      have isChild := ((mem_missing_of_parallel kind).1 isMissing).1
      simpa [defaultChildren, kind] using isChild
  | atomic => simp [missing, kind] at isMissing
  | final => simp [missing, kind] at isMissing

theorem not_retained_of_missing (isMissing : c ∈ definition.missing retained entering n) :
    c ∉ retained := by
  cases kind : definition.kind n with
  | compound =>
      obtain ⟨isInitial, inactive⟩ := (mem_missing_of_compound kind).1 isMissing
      exact (inactive c (definition.initial_mem_children isInitial)).1
  | parallel => exact ((mem_missing_of_parallel kind).1 isMissing).2.1
  | atomic => simp [missing, kind] at isMissing
  | final => simp [missing, kind] at isMissing

/-- What completes the entered states is not retained. -/
theorem not_retained_of_completeEntry {pending : List Nat} (apart : ∀ m ∈ entering, m ∉ retained)
    (entered : n ∈ definition.completeEntry retained entering pending) : n ∉ retained := by
  fun_induction definition.completeEntry retained entering pending with
  | case1 entering => exact apart n entered
  | case2 entering m rest lacking ih =>
      apply ih _ entered
      intro c isEntering
      rcases StateSet.mem_insertAll.1 isEntering with isLacking | before
      · exact not_retained_of_missing isLacking
      · exact apart c before

/-- A state that lacks nothing lacks nothing when more states are entered. -/
theorem missing_mono {larger : StateSet} (grows : ∀ m ∈ entering, m ∈ larger)
    (isMissing : c ∈ definition.missing retained larger n) :
    c ∈ definition.missing retained entering n := by
  cases kind : definition.kind n with
  | compound =>
      obtain ⟨isInitial, inactive⟩ := (mem_missing_of_compound kind).1 isMissing
      refine (mem_missing_of_compound kind).2 ⟨isInitial, fun other isChild => ?_⟩
      exact ⟨(inactive other isChild).1, fun member => (inactive other isChild).2
        (grows other member)⟩
  | parallel =>
      obtain ⟨isChild, notRetained, notLarger⟩ := (mem_missing_of_parallel kind).1 isMissing
      exact (mem_missing_of_parallel kind).2
        ⟨isChild, notRetained, fun member => notLarger (grows c member)⟩
  | atomic => simp [missing, kind] at isMissing
  | final => simp [missing, kind] at isMissing

/-- Once what it lacks is entered, a state lacks nothing. -/
theorem not_mem_missing_insertAll :
    c ∉ definition.missing retained
      (entering.insertAll (definition.missing retained entering n)) n := by
  intro isMissing
  have before := missing_mono (fun m member => StateSet.mem_insertAll.2 (.inr member)) isMissing
  exact (definition.missing_spec isMissing).2 (StateSet.mem_insertAll.2 (.inl before))

/-- A state brings in a default child, which is its only active child if it is compound. -/
def BringsIn (definition : Definition) (retained entering : StateSet) (n c : Nat) : Prop :=
  c ∈ definition.defaultChildren n ∧
    (definition.kind n = .compound → ∀ other ∈ definition.children n,
      other ∈ retained ∨ other ∈ entering → other = c)

theorem BringsIn.of_missing (isMissing : c ∈ definition.missing retained entering n) :
    definition.BringsIn retained
      (entering.insertAll (definition.missing retained entering n)) n c := by
  refine ⟨missing_subset isMissing, fun isCompound other isChild isActive => ?_⟩
  obtain ⟨isInitial, inactive⟩ := (mem_missing_of_compound isCompound).1 isMissing
  obtain ⟨notRetained, notEntering⟩ := inactive other isChild
  have added := (StateSet.mem_insertAll.1 (isActive.resolve_left notRetained)).resolve_right
    notEntering
  have alsoInitial := ((mem_missing_of_compound isCompound).1 added).1
  exact Option.some.inj (alsoInitial.symm.trans isInitial)

/-- What a state has brought in stays its only active child while others bring in theirs. -/
theorem BringsIn.insertAll (linked : definition.toStateTree.Linked) {m : Nat}
    (brings : definition.BringsIn retained entering m c) (entered : c ∈ entering) :
    definition.BringsIn retained
      (entering.insertAll (definition.missing retained entering n)) m c := by
  refine ⟨brings.1, fun isCompound other isChild isActive => ?_⟩
  rcases isActive with isRetained | isEntering
  · exact brings.2 isCompound other isChild (.inl isRetained)
  · rcases StateSet.mem_insertAll.1 isEntering with isMissing | isEntering
    · have isParent := linked.parent_iff.2 isChild
      have alsoParent := linked.parent_iff.2 (defaultChildren_subset (missing_subset isMissing))
      obtain rfl := Option.some.inj (isParent.symm.trans alsoParent)
      have inactive := ((mem_missing_of_compound isCompound).1 isMissing).2
      exact absurd entered (inactive c (defaultChildren_subset brings.1)).2
    · exact brings.2 isCompound other isChild (.inr isEntering)

/-- The entered states after completion. -/
structure Completed (definition : Definition) (retained first entering : StateSet) : Prop where
  includes : ∀ {n}, n ∈ first → n ∈ entering
  settled : ∀ {n c}, n ∈ entering → c ∉ definition.missing retained entering n
  added : ∀ {c}, c ∈ entering →
    c ∈ first ∨ ∃ n ∈ entering, definition.BringsIn retained entering n c

/-- The worklist holds every entered state that may lack a child. -/
theorem completed_of_worklist (linked : definition.toStateTree.Linked) {pending : List Nat}
    (includes : ∀ {n}, n ∈ first → n ∈ entering)
    (listed : ∀ {n}, n ∈ pending → n ∈ entering)
    (settled : ∀ {n}, n ∈ entering →
      n ∈ pending ∨ ∀ c, c ∉ definition.missing retained entering n)
    (added : ∀ {c}, c ∈ entering →
      c ∈ first ∨ ∃ n ∈ entering, definition.BringsIn retained entering n c) :
    definition.Completed retained first (definition.completeEntry retained entering pending) := by
  fun_induction definition.completeEntry retained entering pending with
  | case1 entering =>
      exact ⟨includes, fun isEntered => (settled isEntered).resolve_left List.not_mem_nil _, added⟩
  | case2 entering n rest lacking ih =>
      have grows : ∀ m ∈ entering, m ∈ entering.insertAll lacking := fun m member =>
        StateSet.mem_insertAll.2 (.inr member)
      apply ih (fun member => grows _ (includes member))
      · intro m member
        rcases List.mem_append.1 member with isLacking | later
        · exact StateSet.mem_insertAll.2 (.inl (List.mem_reverse.1 isLacking))
        · exact grows m (listed (.tail _ later))
      · intro m isEntered
        rcases StateSet.mem_insertAll.1 isEntered with isLacking | isEntered
        · exact .inl (List.mem_append_left _ (List.mem_reverse.2 isLacking))
        · rcases settled isEntered with isPending | nothing
          · rcases List.mem_cons.1 isPending with rfl | later
            · exact .inr fun c => not_mem_missing_insertAll
            · exact .inl (List.mem_append_right _ later)
          · exact .inr fun c isMissing => nothing c (missing_mono grows isMissing)
      · intro c isEntered
        rcases StateSet.mem_insertAll.1 isEntered with isLacking | isEntered
        · exact .inr ⟨n, grows n (listed (.head _)), BringsIn.of_missing isLacking⟩
        · rcases added isEntered with isFirst | ⟨m, entered, brings⟩
          · exact .inl isFirst
          · exact .inr ⟨m, grows m entered, brings.insertAll linked isEntered⟩

theorem completed_completeEntry (linked : definition.toStateTree.Linked) :
    definition.Completed retained first
      (definition.completeEntry retained first first.toList.reverse) :=
  completed_of_worklist linked id List.mem_reverse.1 (fun isEntered =>
    .inl (List.mem_reverse.2 isEntered)) .inl

end Definition

end Statechart
