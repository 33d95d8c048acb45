import Statechart.Proofs.RoundTrip

/-!
# The active leaves below a state

In a legal configuration the active leaves within a state are the state itself, if it is a leaf, or
else those within its active children, each counted once. So what is collected from child to child
is collected from the active leaves.
-/

namespace Statechart

namespace Configuration

open StateTree

variable {tree : StateTree} {active : Configuration} {n m c : Nat}

theorem eq_singleton_of_nodup {list : List Nat} (distinct : list.Nodup)
    (only : ∀ m, m ∈ list ↔ m = n) : list = [n] :=
  List.perm_singleton.1 ((List.perm_ext_iff_of_nodup distinct (List.nodup_singleton n)).2
    fun m => (only m).trans List.mem_singleton.symm)

/-- The active leaves that are a state or lie below it. -/
def leavesWithin (tree : StateTree) (active : Configuration) (n : Nat) : List Nat :=
  (leaves tree active).filter fun m => m == n || tree.isBelow m n

theorem mem_leaves : m ∈ leaves tree active ↔ m ∈ active ∧ tree.isLeaf m = true := by
  rw [leaves, List.mem_filter, StateSet.mem_toList]

theorem nodup_leaves : (leaves tree active).Nodup :=
  (active.increasing.imp Nat.ne_of_lt).filter _

theorem mem_leavesWithin : m ∈ leavesWithin tree active n ↔
    m ∈ active ∧ tree.isLeaf m = true ∧ tree.Within m n := by
  rw [leavesWithin, List.mem_filter, mem_leaves, Bool.or_eq_true, beq_iff_eq, isBelow_iff,
    and_assoc]
  rfl

theorem nodup_leavesWithin : (leavesWithin tree active n).Nodup := nodup_leaves.filter _

/-- Every active leaf lies within the root. -/
theorem leavesWithin_root (linked : tree.Linked) (legal : Legal tree active) :
    leavesWithin tree active root = leaves tree active := by
  refine List.filter_eq_self.2 fun m member => ?_
  have inTree := legal.inTree (mem_leaves.1 member).1
  rw [Bool.or_eq_true, beq_iff_eq, isBelow_iff]
  exact Decidable.or_iff_not_imp_left.2 (linked.below_root inTree)

theorem leavesWithin_of_leaf (linked : tree.Linked) (isActive : n ∈ active)
    (isLeaf : tree.isLeaf n = true) : leavesWithin tree active n = [n] := by
  refine eq_singleton_of_nodup nodup_leavesWithin fun m => ?_
  rw [mem_leavesWithin]
  constructor
  · rintro ⟨_, _, within⟩
    exact within.resolve_right (not_below_leaf linked isLeaf)
  · rintro rfl
    exact ⟨isActive, isLeaf, .inl rfl⟩

theorem nodup_activeChildren (linked : tree.Linked) : (activeChildren tree active n).Nodup :=
  (linked.nodup_children n).filter _

/-- The active leaves within a composite state are those within its active children. -/
theorem leavesWithin_perm (linked : tree.Linked) (legal : Legal tree active)
    (composite : tree.isLeaf n = false) :
    (leavesWithin tree active n).Perm
      ((activeChildren tree active n).flatMap (leavesWithin tree active)) := by
  have apart : ((activeChildren tree active n).flatMap (leavesWithin tree active)).Nodup := by
    refine List.nodup_flatMap.2 ⟨fun c _ => nodup_leavesWithin,
      (nodup_activeChildren linked).imp_of_mem fun {c d} isChild alsoChild different => ?_⟩
    intro m inFirst inSecond
    have first := linked.parent_iff.2 (mem_activeChildren.1 isChild).1
    have second := linked.parent_iff.2 (mem_activeChildren.1 alsoChild).1
    exact different (sibling_unique first second (mem_leavesWithin.1 inFirst).2.2
      (mem_leavesWithin.1 inSecond).2.2)
  refine (List.perm_ext_iff_of_nodup nodup_leavesWithin apart).2 fun m => ?_
  simp only [List.mem_flatMap, mem_activeChildren, mem_leavesWithin]
  constructor
  · rintro ⟨isActive, isLeaf, rfl | below⟩
    · cases composite.symm.trans isLeaf
    · obtain ⟨c, isParent, within⟩ := exists_child_toward below
      exact ⟨c, ⟨linked.parent_iff.1 isParent, legal.above_within isActive within⟩, isActive,
        isLeaf, within⟩
  · rintro ⟨c, ⟨isChild, _⟩, isActive, isLeaf, within⟩
    exact ⟨isActive, isLeaf, .inr (within.below (linked.child_below isChild))⟩

/-- An active composite state has an active child. -/
theorem activeChildren_ne_nil (legal : Legal tree active)
    (regions : ∀ {n : Nat}, tree.kind n = .parallel → tree.children n ≠ [])
    (isActive : n ∈ active) (composite : tree.isLeaf n = false) :
    activeChildren tree active n ≠ [] := by
  rw [isLeaf_eq] at composite
  cases kind : tree.kind n with
  | compound =>
      obtain ⟨c, isChild, childActive, _⟩ := legal.compound isActive kind
      exact List.ne_nil_of_mem (mem_activeChildren.2 ⟨isChild, childActive⟩)
  | parallel =>
      obtain ⟨c, isChild⟩ := List.exists_mem_of_ne_nil _ (regions kind)
      exact List.ne_nil_of_mem
        (mem_activeChildren.2 ⟨isChild, legal.parallel isActive kind c isChild⟩)
  | atomic | final => simp [kind, StateKind.isLeaf] at composite

/-- The active child of a compound state is its only one. -/
theorem activeChildren_of_compound (linked : tree.Linked) (isChild : c ∈ tree.children n)
    (isActive : c ∈ active) (unique : ∀ other ∈ tree.children n, other ∈ active → other = c) :
    activeChildren tree active n = [c] := by
  refine eq_singleton_of_nodup (nodup_activeChildren linked) fun m => ?_
  rw [mem_activeChildren]
  exact ⟨fun ⟨isOther, otherActive⟩ => unique m isOther otherActive,
    fun same => same ▸ ⟨isChild, isActive⟩⟩

end Configuration

end Statechart
