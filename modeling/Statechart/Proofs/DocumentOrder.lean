import Statechart.Proofs.NodeTable

/-!
# Document order

The states of a machine are numbered in document order: a state stands before all that lies
below it, and where the ways from the root to two states fork, the one stands first whose way
leads through the child that is declared first. So what lies below a state is a stretch of the
numbering.
-/

namespace Statechart

namespace StateTree

/-- A state stands before another in document order: the other lies below it, or the ways to
the two fork, and the way to the one leads through an earlier child. -/
def Precedes (tree : StateTree) (n m : Nat) : Prop :=
  tree.Below m n ∨
    ∃ p a b, [a, b].Sublist (tree.children p) ∧ tree.Within n a ∧ tree.Within m b

variable {tree : StateTree} {n m a b p : Nat}

/-- What lies within a state does not stand before it. -/
theorem Within.le (within : tree.Within n a) : a ≤ n := by
  rcases within with same | below
  · exact Nat.le_of_eq same.symm
  · exact Nat.le_of_lt below.lt

namespace Linked

variable (linked : tree.Linked)

include linked

theorem children_sublist_iff :
    [a, b].Sublist (tree.children p) ↔
      tree.parent? a = some p ∧ tree.parent? b = some p ∧ a < b := by
  rw [linked.parent_iff, linked.parent_iff]
  constructor
  · intro sublist
    have increasing := (linked.increasing p).sublist sublist
    exact ⟨sublist.subset (.head _), sublist.subset (.tail _ (.head _)),
      List.rel_of_pairwise_cons increasing (.head _)⟩
  · rintro ⟨isChild, alsoChild, less⟩
    obtain ⟨earlier, later, split⟩ := List.append_of_mem isChild
    have increasing := linked.increasing p
    rw [split] at alsoChild increasing ⊢
    rcases List.mem_append.1 alsoChild with isEarlier | isLater
    · have greater := (List.pairwise_append.1 increasing).2.2 b isEarlier a (.head _)
      omega
    · rcases List.mem_cons.1 isLater with same | isLater
      · omega
      · exact ((List.singleton_sublist.2 isLater).cons_cons a).trans (List.sublist_append_right _ _)

end Linked

end StateTree

namespace Definition

open StateTree

variable {definition : Definition} {machine : MachineSpec}
variable (built : machine.build = .ok definition)

include built

/-- What lies below a state is a stretch of the table. -/
theorem below_of_between {a first middle last : Nat} (within : definition.Within first a)
    (below : definition.Below last a) (after : first < middle) (stillBefore : middle < last) :
    definition.Below middle a := by
  obtain ⟨_, rfl⟩ := MachineSpec.build_eq_ok_iff.1 built
  have linked : machine.resolved.Linked := (MachineSpec.wellFormed_of_build built).linked
  obtain ⟨p, isParent, _⟩ := below_iff.1 below
  have inTree : a < machine.resolved.size :=
    Nat.lt_trans below.lt (linked.lt_size_of_parent isParent)
  obtain ⟨k, _, spans⟩ := StateTree.exists_span inTree
  have bounds := (spans last).1 below
  have atOrAfter := within.le
  exact (spans middle).2 (by omega)

/-- The states are numbered in document order. -/
theorem precedes_iff_lt {n m : Nat} (inTree : m < definition.size) :
    definition.Precedes n m ↔ n < m := by
  have linked := (MachineSpec.wellFormed_of_build built).linked
  constructor
  · rintro (below | ⟨p, a, b, sublist, inFirst, inSecond⟩)
    · exact below.lt
    · obtain ⟨isChild, alsoChild, less⟩ := linked.children_sublist_iff.1 sublist
      by_contra notBefore
      have atOrAfter := inSecond.le
      -- else the second state would lie in the stretch of the first child as well
      have inBoth : definition.Within m a := by
        rcases Nat.lt_or_eq_of_le (Nat.le_of_not_lt notBefore) with before | same
        · rcases inFirst with same | below
          · omega
          · exact .inr (below_of_between built (.inl rfl) below (by omega) before)
        · exact same ▸ inFirst
      have same := sibling_unique isChild alsoChild inBoth inSecond
      omega
  · induction m using Nat.strongRecOn with
    | ind m ih =>
        intro before
        obtain ⟨p, isParent⟩ := linked.rooted inTree (Nat.ne_of_gt (Nat.zero_lt_of_lt before))
        have parentBefore := definition.parent_lt isParent
        rcases Nat.lt_trichotomy n p with less | rfl | greater
        · rcases ih p parentBefore (Nat.lt_trans parentBefore inTree) less with
            below | ⟨q, a, b, sublist, inFirst, inSecond⟩
          · exact .inl ((below_of_parent isParent).trans below)
          · exact .inr ⟨q, a, b, sublist, inFirst,
              .inr ((below_of_parent isParent).of_within inSecond)⟩
        · exact .inl (below_of_parent isParent)
        · have below : definition.Below n p :=
            below_of_between built (.inl rfl) (below_of_parent isParent) greater before
          obtain ⟨c, isChild, within⟩ := exists_child_toward below
          have fork := linked.children_sublist_iff.2
            ⟨isChild, isParent, Nat.lt_of_le_of_lt within.le before⟩
          exact .inr ⟨p, c, m, fork, within, .inl rfl⟩

end Definition

end Statechart
