import Statechart.Proofs.Plan

/-!
# Transitions to the root

The root has no proper ancestor that could be the domain of a transition to it. Such a
transition exits everything below the root and enters nothing, so that the root alone
stays active. For a machine without other states that is legal, and otherwise it is not.
-/

namespace Statechart

namespace StateTree

variable {tree : StateTree} {source n : Nat}

theorem scope_root (source : Nat) : tree.scope source root = ⟨root, none⟩ := by
  have noDomain : (tree.ancestors source).find? (tree.isBelow root) = none := by
    refine List.find?_eq_none.2 fun a _ isBelow => ?_
    exact not_below_root (isBelow_iff.1 isBelow)
  have noAncestors : tree.ancestors root = [] := ancestors_of_orphan parent?_root
  simp [scope, noDomain, noAncestors, parent?_root]

theorem inScope_root_iff : tree.InScope source root n ↔ tree.Below n root := by
  simp [InScope, scope_root, inScope, isBelow_iff]

theorem entryPath_root {t : Transition} (isTarget : t.target = some root) :
    tree.entryPath t = [] := by
  simp [entryPath, isTarget, scope_root]

theorem mem_entryPath_le {t : Transition} {g : Nat} (isTarget : t.target = some g)
    (onPath : n ∈ tree.entryPath t) : n ≤ g := by
  simp only [entryPath, isTarget, List.mem_reverse] at onPath
  rcases List.mem_cons.1 ((List.takeWhile_sublist _).subset onPath) with same | above
  · exact Nat.le_of_eq same
  · exact Nat.le_of_lt (Below.lt above)

/-- A transition that leads to the root at most does not touch the root. -/
theorem not_touches_root {t : Transition} (onlyRoot : ∀ g, t.target = some g → g = root) :
    ¬ tree.Touches t root := by
  rintro ⟨g, isTarget, inside⟩
  obtain rfl := onlyRoot g isTarget
  exact not_below_root (inScope_root_iff.1 inside)

/-- A tree whose root is a leaf has no other state. -/
theorem eq_root_of_leaf (linked : tree.Linked) (isLeaf : tree.isLeaf root = true)
    (inTree : n < tree.size) : n = root := by
  apply Decidable.byContradiction
  intro notRoot
  obtain ⟨c, isParent, _⟩ := exists_child_toward (linked.below_root inTree notRoot)
  cases (linked.not_leaf_of_parent isParent).symm.trans isLeaf

end StateTree

namespace Definition

open StateTree

variable {definition : Definition} {active : Configuration} {transitions : List Transition}
variable {t : Transition} {n : Nat}

/-- A step enters no state that it retains, whatever is active: the states on the way to a
target are in its scope, and no way leads to the root. -/
theorem not_retained_of_entering (linked : definition.toStateTree.Linked)
    (inTree : ∀ t ∈ transitions, ∀ g, t.target = some g → g < definition.size)
    (entered : n ∈ definition.entering active transitions) :
    n ∉ definition.retained active transitions := by
  refine not_retained_of_completeEntry (fun m onPath kept => ?_) entered
  obtain ⟨t, member, onPath⟩ := List.mem_flatMap.1 (StateSet.mem_ofList.1 onPath)
  cases isTarget : t.target with
  | none => simp [entryPath, isTarget] at onPath
  | some g =>
      have notRoot : g ≠ root := by
        rintro rfl
        simp [entryPath_root isTarget] at onPath
      have below : definition.Below g (definition.scope t.source g).domain :=
        below_domain linked (inTree t member g isTarget) notRoot
      obtain ⟨within, under⟩ := (mem_entryPath isTarget below).1 onPath
      have touches : definition.Touches t m := ⟨g, isTarget, inScope_of_path below within under⟩
      exact (mem_retained.1 kept).2 t member touches

/-- Transitions that lead to the root at most enter nothing and leave active what none of them
exits. -/
theorem mem_after_iff_of_onlyRoot
    (onlyRoot : ∀ t ∈ transitions, ∀ g, t.target = some g → g = root) :
    n ∈ (definition.plan active transitions).configuration ↔
      n ∈ active ∧ ∀ t ∈ transitions, ¬ definition.Touches t n := by
  have noPath : transitions.flatMap definition.entryPath = [] := by
    apply List.flatMap_eq_nil_iff.2
    intro t member
    cases isTarget : t.target with
    | none => simp [entryPath, isTarget]
    | some g => exact entryPath_root (onlyRoot t member g isTarget ▸ isTarget)
  have nothingEntered : n ∉ definition.entering active transitions := by
    have noStart : definition.pathStates transitions = .empty := by rw [pathStates, noPath]; rfl
    have nothing : definition.entering active transitions = .empty := by
      rw [entering, noStart]
      exact completeEntry.eq_1 definition _ _
    rw [nothing]
    exact StateSet.not_mem_empty
  rw [mem_after, or_iff_left nothingEntered, mem_retained]

namespace Compatible

variable (compatible : definition.Compatible active transitions)

include compatible

theorem lt_size_of_after (isActive : n ∈ (definition.plan active transitions).configuration) :
    n < definition.size := by
  rcases mem_after.1 isActive with kept | entered
  · exact compatible.legal.inTree (mem_retained.1 kept).1
  · rcases (completed_entering compatible.linked).added entered with onPath | ⟨m, _, brings⟩
    · obtain ⟨t, member, onPath⟩ := List.mem_flatMap.1 (StateSet.mem_ofList.1 onPath)
      cases isTarget : t.target with
      | none => simp [entryPath, isTarget] at onPath
      | some g =>
          exact Nat.lt_of_le_of_lt (mem_entryPath_le isTarget onPath)
            (compatible.target member isTarget)
    · exact (definition.child_bounds (defaultChildren_subset brings.1)).2

/-- No other transition goes along with one to the root of a machine with other states. -/
theorem target_eq_root (member : t ∈ transitions) (isTarget : t.target = some root)
    {u : Transition} {g : Nat} (other : u ∈ transitions) (isOther : u.target = some g) :
    g = root := by
  apply Decidable.byContradiction
  intro notRoot
  have below : definition.Below g (definition.scope u.source g).domain :=
    target_below_domain compatible.linked ⟨compatible.legal.inTree (compatible.source other),
      compatible.target other isOther, notRoot⟩
  obtain ⟨m, isActive, inside⟩ :=
    compatible.legal.exists_active_inScope compatible.linked (compatible.source other) below
  have notRootM : m ≠ root := fun isRoot => not_below_root (isRoot ▸ inside.below_domain below)
  have underRoot := compatible.linked.below_root (compatible.legal.inTree isActive) notRootM
  obtain rfl := compatible.apart member other isActive
    ⟨root, isTarget, inScope_root_iff.2 underRoot⟩
    ⟨g, isOther, inside⟩
  exact notRoot (Option.some.inj (isOther.symm.trans isTarget))

/-- In a machine of one state every step leaves that state active. -/
theorem legal_plan_of_leaf (isLeaf : definition.isLeaf root = true) :
    Configuration.Legal definition.toStateTree
      (definition.plan active transitions).configuration := by
  have isRoot : ∀ {n}, n ∈ (definition.plan active transitions).configuration → n = root :=
    fun isActive => eq_root_of_leaf compatible.linked isLeaf (compatible.lt_size_of_after isActive)
  refine ⟨mem_after.2 (.inl (mem_retained.2 ⟨compatible.legal.root, fun t member => ?_⟩)),
    compatible.lt_size_of_after, fun isActive isParent => ?_, fun isActive isCompound => ?_,
    fun isActive isParallel => ?_⟩
  · apply not_touches_root
    intro g isTarget
    exact eq_root_of_leaf compatible.linked isLeaf (compatible.target member isTarget)
  · obtain rfl := isRoot isActive
    cases parent?_root.symm.trans isParent
  · obtain rfl := isRoot isActive
    simp [isLeaf_eq, isCompound, StateKind.isLeaf] at isLeaf
  · obtain rfl := isRoot isActive
    simp [isLeaf_eq, isParallel, StateKind.isLeaf] at isLeaf

/-- A step with a transition to the root leaves only the root active. -/
theorem mem_after_iff_of_root (member : t ∈ transitions) (isTarget : t.target = some root) :
    n ∈ (definition.plan active transitions).configuration ↔ n = root := by
  have onlyRoot : ∀ u ∈ transitions, ∀ g, u.target = some g → g = root :=
    fun u other g isOther => compatible.target_eq_root member isTarget other isOther
  rw [mem_after_iff_of_onlyRoot onlyRoot]
  constructor
  · rintro ⟨isActive, untouched⟩
    refine Decidable.byContradiction fun notRoot => untouched t member ⟨root, isTarget, ?_⟩
    exact inScope_root_iff.2
      (compatible.linked.below_root (compatible.legal.inTree isActive) notRoot)
  · rintro rfl
    exact ⟨compatible.legal.root, fun u other => not_touches_root (onlyRoot u other)⟩

/-- What a step makes of a legal configuration is legal unless one of its transitions leads
to the root of a machine with other states. -/
theorem legal_plan_iff (wellFormed : definition.WellFormed) :
    Configuration.Legal definition.toStateTree
        (definition.plan active transitions).configuration ↔
      ¬ ∃ t ∈ transitions, t.target = some root ∧ definition.isLeaf root = false := by
  by_cases avoidsRoot : ∃ t ∈ transitions, t.target = some root
  · obtain ⟨t, member, isTarget⟩ := avoidsRoot
    cases isLeaf : definition.isLeaf root with
    | true => simp [compatible.legal_plan_of_leaf isLeaf]
    | false =>
        -- the root alone is active, and it lacks a child
        refine iff_of_false (fun legal => ?_) fun avoids => avoids ⟨t, member, isTarget, rfl⟩
        have alone : ∀ {c}, c ∈ definition.children root →
            c ∉ (definition.plan active transitions).configuration := by
          intro c isChild isActive
          have bounds := (definition.child_bounds isChild).1
          rw [(compatible.mem_after_iff_of_root member isTarget).1 isActive] at bounds
          exact Nat.lt_irrefl _ bounds
        have rootActive := (compatible.mem_after_iff_of_root member isTarget).2 rfl
        cases kind : definition.kind root with
        | compound =>
            obtain ⟨c, isChild, isActive, _⟩ := legal.compound rootActive kind
            exact alone isChild isActive
        | parallel =>
            obtain ⟨c, isChild⟩ := List.exists_mem_of_ne_nil _ (wellFormed.regions kind)
            exact alone isChild (legal.parallel rootActive kind c isChild)
        | atomic | final => simp [isLeaf_eq, kind, StateKind.isLeaf] at isLeaf
  · have enclosed : definition.Enclosed active transitions :=
      ⟨compatible, fun member isTarget => avoidsRoot ⟨_, member, isTarget⟩⟩
    apply iff_of_true (enclosed.legal_plan wellFormed)
    rintro ⟨t, member, isTarget, _⟩
    exact avoidsRoot ⟨t, member, isTarget⟩

end Compatible

end Definition

end Statechart
