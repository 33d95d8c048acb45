import Statechart.Configuration

/-!
# Ancestry

Being below a state is a strict order in which the states above a given one form a
chain. In a tree whose parent links and lists of children agree, every state other
than the root hangs below the root, and what lies below a state lies within exactly
one of its children.
-/

namespace Statechart

namespace StateTree

variable (tree : StateTree)

/-- A state lies properly below another. -/
def Below (n a : Nat) : Prop := a ∈ tree.ancestors n

/-- A state is another one or lies below it. -/
def Within (n a : Nat) : Prop := n = a ∨ tree.Below n a

variable {tree} {n m a b p : Nat}

theorem isLeaf_eq : tree.isLeaf n = (tree.kind n).isLeaf := rfl

theorem ancestors_of_parent (isParent : tree.parent? n = some p) :
    tree.ancestors n = p :: tree.ancestors p := by
  rw [ancestors]
  split
  · next orphan => simp [isParent] at orphan
  · next other isOther =>
    obtain rfl : p = other := Option.some.inj (isParent.symm.trans isOther)
    rfl

theorem ancestors_of_orphan (orphan : tree.parent? n = none) : tree.ancestors n = [] := by
  rw [ancestors]
  split
  · rfl
  · next isParent => simp [orphan] at isParent

theorem isBelow_iff : tree.isBelow n a = true ↔ tree.Below n a := List.contains_iff_mem

theorem below_iff : tree.Below n a ↔ ∃ p, tree.parent? n = some p ∧ tree.Within p a := by
  unfold Below
  cases isParent : tree.parent? n with
  | none => simp [ancestors_of_orphan isParent]
  | some p =>
      rw [ancestors_of_parent isParent, List.mem_cons]
      constructor
      · rintro (rfl | above)
        · exact ⟨a, rfl, .inl rfl⟩
        · exact ⟨p, rfl, .inr above⟩
      · rintro ⟨other, same, within⟩
        obtain rfl := Option.some.inj same
        exact within.imp Eq.symm id

theorem below_of_parent (isParent : tree.parent? n = some p) : tree.Below n p :=
  below_iff.2 ⟨p, isParent, .inl rfl⟩

theorem Below.lt (below : tree.Below n a) : a < n := by
  induction n using Nat.strongRecOn generalizing a with
  | ind n ih =>
      obtain ⟨p, isParent, rfl | above⟩ := below_iff.1 below
      · exact tree.parent_lt isParent
      · exact Nat.lt_trans (ih p (tree.parent_lt isParent) above) (tree.parent_lt isParent)

theorem Below.trans (first : tree.Below n m) (second : tree.Below m a) : tree.Below n a := by
  induction n using Nat.strongRecOn with
  | ind n ih =>
      obtain ⟨p, isParent, within⟩ := below_iff.1 first
      refine below_iff.2 ⟨p, isParent, .inr ?_⟩
      rcases within with rfl | above
      · exact second
      · exact ih p (tree.parent_lt isParent) above

theorem Within.below (within : tree.Within n m) (below : tree.Below m a) : tree.Below n a := by
  rcases within with rfl | first
  · exact below
  · exact first.trans below

theorem Below.of_within (below : tree.Below n m) (within : tree.Within m a) : tree.Below n a := by
  rcases within with rfl | second
  · exact below
  · exact below.trans second

theorem Within.trans (first : tree.Within n m) (second : tree.Within m a) : tree.Within n a := by
  rcases second with rfl | below
  · exact first
  · exact .inr (first.below below)

theorem not_below_self : ¬ tree.Below n n := fun below => Nat.lt_irrefl n below.lt

theorem not_below_root : ¬ tree.Below root a := fun below => Nat.not_lt_zero a below.lt

theorem parent?_root : tree.parent? root = none := by
  cases isParent : tree.parent? root with
  | none => rfl
  | some p => exact absurd (tree.parent_lt isParent) (Nat.not_lt_zero p)

/-- The states above a state form a chain. -/
theorem Below.chain (first : tree.Below n a) (second : tree.Below n b) :
    tree.Within a b ∨ tree.Within b a := by
  induction n using Nat.strongRecOn with
  | ind n ih =>
      obtain ⟨p, isParent, withinA⟩ := below_iff.1 first
      obtain ⟨q, isOther, withinB⟩ := below_iff.1 second
      obtain rfl := Option.some.inj (isParent.symm.trans isOther)
      rcases withinA with rfl | belowA
      · exact .inl withinB
      · rcases withinB with rfl | belowB
        · exact .inr (.inr belowA)
        · exact ih p (tree.parent_lt isParent) belowA belowB

theorem Within.chain (first : tree.Within n a) (second : tree.Within n b) :
    tree.Within a b ∨ tree.Within b a := by
  rcases first with rfl | belowA
  · exact .inl second
  · rcases second with rfl | belowB
    · exact .inr (.inr belowA)
    · exact belowA.chain belowB

/-- Above a state and not below its parent there is only the parent and what is above it. -/
theorem within_parent_of_below (isParent : tree.parent? n = some p) (below : tree.Below n a) :
    tree.Within p a := by
  obtain ⟨other, isOther, within⟩ := below_iff.1 below
  obtain rfl := Option.some.inj (isParent.symm.trans isOther)
  exact within

/-- Two states with one parent that both contain a third are the same. -/
theorem sibling_unique (first : tree.parent? a = some p) (second : tree.parent? b = some p)
    (inFirst : tree.Within n a) (inSecond : tree.Within n b) : a = b := by
  have apart : ∀ {c d : Nat}, tree.parent? c = some p → tree.parent? d = some p →
      tree.Within c d → c = d := by
    intro c d isChild isOther within
    rcases within with same | below
    · exact same
    · have above := within_parent_of_below isChild below
      exact absurd ((below_of_parent isOther).of_within above) not_below_self
  rcases inFirst.chain inSecond with within | within
  · exact apart first second within
  · exact (apart second first within).symm

/-- The next state on the way down from a state to one below it. -/
theorem exists_child_toward (below : tree.Below n a) :
    ∃ c, tree.parent? c = some a ∧ tree.Within n c := by
  induction n using Nat.strongRecOn with
  | ind n ih =>
      obtain ⟨p, isParent, rfl | above⟩ := below_iff.1 below
      · exact ⟨n, isParent, .inl rfl⟩
      · obtain ⟨c, isChild, within⟩ := ih p (tree.parent_lt isParent) above
        exact ⟨c, isChild, .inr ((below_of_parent isParent).of_within within)⟩

/-- What holds of a state whenever it holds of its children holds of every state. -/
theorem induction_down (tree : StateTree) {motive : Nat → Prop}
    (step : ∀ n, (∀ c ∈ tree.children n, motive c) → motive n) (n : Nat) : motive n := by
  generalize rank : tree.size - n = height
  induction height using Nat.strongRecOn generalizing n with
  | ind height ih =>
      refine step n fun c isChild => ih (tree.size - c) ?_ c rfl
      have := tree.child_bounds isChild
      omega

variable (tree) in
/-- Parent links and lists of children agree: children stand in document order under
their parent, only the root has no parent, and leaves have no children. -/
structure Linked : Prop where
  parent_iff : ∀ {n c : Nat}, tree.parent? c = some n ↔ c ∈ tree.children n
  increasing : ∀ n : Nat, (tree.children n).Pairwise (· < ·)
  rooted : ∀ {n : Nat}, n < tree.size → n ≠ root → ∃ p, tree.parent? n = some p
  childless : ∀ {n : Nat}, tree.isLeaf n = true → tree.children n = []

namespace Linked

variable (linked : tree.Linked)

include linked

theorem child_below {c : Nat} (isChild : c ∈ tree.children n) : tree.Below c n :=
  below_of_parent (linked.parent_iff.2 isChild)

theorem nodup_children (n : Nat) : (tree.children n).Nodup :=
  (linked.increasing n).imp Nat.ne_of_lt

theorem lt_size_of_parent (isParent : tree.parent? n = some p) : n < tree.size :=
  (tree.child_bounds (linked.parent_iff.1 isParent)).2

theorem below_root (inTree : n < tree.size) (notRoot : n ≠ root) : tree.Below n root := by
  induction n using Nat.strongRecOn with
  | ind n ih =>
      obtain ⟨p, isParent⟩ := linked.rooted inTree notRoot
      have before := tree.parent_lt isParent
      by_cases atRoot : p = root
      · exact below_iff.2 ⟨p, isParent, .inl atRoot⟩
      · exact below_iff.2 ⟨p, isParent, .inr (ih p before (by omega) atRoot)⟩

theorem not_leaf_of_parent (isParent : tree.parent? n = some p) : tree.isLeaf p = false := by
  have isChild := linked.parent_iff.1 isParent
  cases leaf : tree.isLeaf p with
  | false => rfl
  | true => simp [linked.childless leaf] at isChild

theorem kind_of_below (below : tree.Below n a) :
    tree.kind a = .compound ∨ tree.kind a = .parallel := by
  obtain ⟨c, isChild, _⟩ := exists_child_toward below
  have composite := linked.not_leaf_of_parent isChild
  rw [isLeaf_eq] at composite
  cases kind : tree.kind a <;> simp [kind, StateKind.isLeaf] at composite ⊢

end Linked

end StateTree

end Statechart
