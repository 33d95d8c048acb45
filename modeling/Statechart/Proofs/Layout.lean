import Statechart.Definition.Layout
import Statechart.Proofs.Ancestry

/-!
# Links in a layout

In the layout of a specification every state but the first has its parent in the
layout, and that parent lists it; what a state lists as its children names it as
their parent. Blocks that follow one another keep this, and so does a state put in
front of the blocks of its children.
-/

namespace Statechart

namespace Layout

/-- An entry stands at a position of a stretch that begins at `start`. -/
def At {α : Type} (start : Nat) (placed : List α) (n : Nat) (state : α) : Prop :=
  ∃ i, n = start + i ∧ placed[i]? = some state

section At

variable {α : Type} {start n : Nat} {placed first second : List α} {state other : α}

theorem At.bounds (stands : At start placed n state) :
    start ≤ n ∧ n < start + placed.length := by
  obtain ⟨i, rfl, entry⟩ := stands
  have inside := (List.getElem?_eq_some_iff.1 entry).1
  omega

theorem At.unique (stands : At start placed n state) (alsoStands : At start placed n other) :
    state = other := by
  obtain ⟨i, rfl, entry⟩ := stands
  obtain ⟨j, same, otherEntry⟩ := alsoStands
  obtain rfl : i = j := by omega
  exact Option.some.inj (entry.symm.trans otherEntry)

@[simp]
theorem not_at_nil : ¬ At start [] n state := by
  rintro ⟨i, _, entry⟩
  simp at entry

theorem at_cons :
    At start (other :: placed) n state ↔
      (n = start ∧ state = other) ∨ At (start + 1) placed n state := by
  constructor
  · rintro ⟨i, rfl, entry⟩
    cases i with
    | zero => exact .inl ⟨rfl, by simpa using entry.symm⟩
    | succ i => exact .inr ⟨i, by omega, by simpa using entry⟩
  · rintro (⟨rfl, rfl⟩ | ⟨i, rfl, entry⟩)
    · exact ⟨0, rfl, rfl⟩
    · exact ⟨i + 1, by omega, by simpa using entry⟩

theorem at_append :
    At start (first ++ second) n state ↔
      At start first n state ∨ At (start + first.length) second n state := by
  induction first generalizing start with
  | nil => simp
  | cons head rest ih =>
      rw [List.cons_append, at_cons, at_cons, ih, List.length_cons, or_assoc,
        show start + 1 + rest.length = start + (rest.length + 1) by omega]

/-- What stands in one stretch stands in another, at the same positions. -/
def PartOf (start : Nat) (part : List α) (outerStart : Nat) (whole : List α) : Prop :=
  ∀ n state, At start part n state → At outerStart whole n state

theorem partOf_append_left : PartOf start first start (first ++ second) :=
  fun _ _ stands => at_append.2 (.inl stands)

theorem partOf_append_right : PartOf (start + first.length) second start (first ++ second) :=
  fun _ _ stands => at_append.2 (.inr stands)

theorem partOf_cons : PartOf (start + 1) placed start (state :: placed) :=
  fun _ _ stands => at_cons.2 (.inr stands)

end At

/-- Links that agree within a stretch: the states at its heads hang below an outer
parent, every other one below a state of the stretch that lists it. -/
structure Interlinked (outer : Option Nat) (heads : List Nat) (start : Nat)
    (placed : List PlacedState) : Prop where
  headed : ∀ {n}, n ∈ heads → ∃ state, At start placed n state ∧ state.node.parent = outer
  upward : ∀ {n state}, At start placed n state →
    (n ∈ heads ∧ state.node.parent = outer) ∨
      ∃ p other, At start placed p other ∧ state.node.parent = some p ∧ n ∈ other.node.children
  downward : ∀ {n state c}, At start placed n state → c ∈ state.node.children →
    ∃ other, At start placed c other ∧ other.node.parent = some n
  increasing : ∀ {n state}, At start placed n state → state.node.children.Pairwise (· < ·)
  leaf : ∀ {n state}, At start placed n state → state.node.isLeaf = true →
    state.node.children = []

namespace Interlinked

variable {outer : Option Nat} {start : Nat}

theorem nil : Interlinked outer [] start [] where
  headed := by simp
  upward stands := absurd stands not_at_nil
  downward stands := absurd stands not_at_nil
  increasing stands := absurd stands not_at_nil
  leaf stands := absurd stands not_at_nil

theorem append {firstHeads secondHeads : List Nat} {first second : List PlacedState}
    (left : Interlinked outer firstHeads start first)
    (right : Interlinked outer secondHeads (start + first.length) second) :
    Interlinked outer (firstHeads ++ secondHeads) start (first ++ second) where
  headed member := by
    rcases List.mem_append.1 member with member | member
    · obtain ⟨state, stands, parent⟩ := left.headed member
      exact ⟨state, at_append.2 (.inl stands), parent⟩
    · obtain ⟨state, stands, parent⟩ := right.headed member
      exact ⟨state, at_append.2 (.inr stands), parent⟩
  upward stands := by
    rcases at_append.1 stands with stands | stands
    · rcases left.upward stands with ⟨member, parent⟩ | ⟨p, other, above, parent, listed⟩
      · exact .inl ⟨List.mem_append_left _ member, parent⟩
      · exact .inr ⟨p, other, at_append.2 (.inl above), parent, listed⟩
    · rcases right.upward stands with ⟨member, parent⟩ | ⟨p, other, above, parent, listed⟩
      · exact .inl ⟨List.mem_append_right _ member, parent⟩
      · exact .inr ⟨p, other, at_append.2 (.inr above), parent, listed⟩
  downward stands isChild := by
    rcases at_append.1 stands with stands | stands
    · obtain ⟨other, below, parent⟩ := left.downward stands isChild
      exact ⟨other, at_append.2 (.inl below), parent⟩
    · obtain ⟨other, below, parent⟩ := right.downward stands isChild
      exact ⟨other, at_append.2 (.inr below), parent⟩
  increasing stands := (at_append.1 stands).elim left.increasing right.increasing
  leaf stands := (at_append.1 stands).elim left.leaf right.leaf

/-- A state in front of its children and what lies below them. -/
theorem cons {state : PlacedState} {rest : List PlacedState} (isParent : state.node.parent = outer)
    (below : Interlinked (some start) state.node.children (start + 1) rest)
    (increasing : state.node.children.Pairwise (· < ·))
    (leaf : state.node.isLeaf = true → state.node.children = []) :
    Interlinked outer [start] start (state :: rest) where
  headed member := by
    obtain rfl := List.mem_singleton.1 member
    exact ⟨state, at_cons.2 (.inl ⟨rfl, rfl⟩), isParent⟩
  upward stands := by
    rcases at_cons.1 stands with ⟨rfl, rfl⟩ | stands
    · exact .inl ⟨List.mem_singleton.2 rfl, isParent⟩
    · rcases below.upward stands with ⟨member, parent⟩ | ⟨p, other, above, parent, listed⟩
      · exact .inr ⟨start, state, at_cons.2 (.inl ⟨rfl, rfl⟩), parent, member⟩
      · exact .inr ⟨p, other, at_cons.2 (.inr above), parent, listed⟩
  downward stands isChild := by
    rcases at_cons.1 stands with ⟨rfl, rfl⟩ | stands
    · obtain ⟨other, under, parent⟩ := below.headed isChild
      exact ⟨other, at_cons.2 (.inr under), parent⟩
    · obtain ⟨other, under, parent⟩ := below.downward stands isChild
      exact ⟨other, at_cons.2 (.inr under), parent⟩
  increasing stands := by
    rcases at_cons.1 stands with ⟨rfl, rfl⟩ | stands
    · exact increasing
    · exact below.increasing stands
  leaf stands := by
    rcases at_cons.1 stands with ⟨rfl, rfl⟩ | stands
    · exact leaf
    · exact below.leaf stands

section Part

variable {outerStart n p : Nat} {heads : List Nat} {part whole : List PlacedState}
variable {parent state : PlacedState}
variable (linked : Interlinked outer heads start part)
variable (isPart : PartOf start part outerStart whole)

include linked isPart

/-- Of a linked part the heads stand in that part only. -/
theorem at_of_head (isHead : n ∈ heads) (stands : At outerStart whole n state) :
    At start part n state := by
  obtain ⟨other, inPart, _⟩ := linked.headed isHead
  obtain rfl := stands.unique (isPart _ _ inPart)
  exact inPart

/-- The children of a state stand in the same linked part as the state itself. -/
theorem at_of_child (above : At start part p parent) (isChild : n ∈ parent.node.children)
    (stands : At outerStart whole n state) : At start part n state := by
  obtain ⟨other, inPart, _⟩ := linked.downward above isChild
  obtain rfl := stands.unique (isPart _ _ inPart)
  exact inPart

end Part

end Interlinked

theorem blockStarts_increasing {start : Nat} {blocks : List (List PlacedState)}
    (nonempty : ∀ block ∈ blocks, 0 < block.length) :
    (blockStarts start blocks).Pairwise (· < ·) := by
  induction blocks generalizing start with
  | nil => simp [blockStarts]
  | cons block rest ih =>
      have later : ∀ other ∈ rest, 0 < other.length := fun other member =>
        nonempty other (.tail _ member)
      refine List.pairwise_cons.2 ⟨fun c member => ?_, ih later⟩
      have := nonempty block (.head _)
      have := mem_blockStarts later member
      omega

mutual
theorem block_interlinked (key id : String) (parent : Option Nat) (depth start : Nat) :
    (spec : StateSpec) →
      Interlinked parent [start] start (block key id parent depth start spec)
  | spec@⟨explicit, _, _, _, _, _, _, states⟩ => by
      rw [block]
      refine Interlinked.cons rfl ?_ ?_ ?_
      · split
        · exact .nil
        · exact blocksOf_interlinked _ start depth (start + 1) states
      · split
        · simp [blockStarts]
        · exact blockStarts_increasing
            (blocksOf_nested _ start depth (start + 1) (Nat.lt_succ_self _) states).2
      · intro leaf
        simp only [StateNode.isLeaf] at leaf
        simp [leaf, blockStarts]

theorem blocksOf_interlinked (parentId : String) (parent depth start : Nat) :
    (states : List (String × StateSpec)) →
      Interlinked (some parent)
        (blockStarts start (blocksOf parentId parent depth start states)) start
        (blocksOf parentId parent depth start states).flatten
  | [] => by
      rw [blocksOf]
      exact .nil
  | child :: rest => by
      rw [blocksOf]
      split
      · exact (block_interlinked child.1 (parentId ++ "." ++ child.1) (some parent) (depth + 1)
          start child.2).append (blocksOf_interlinked parentId parent depth _ rest)
      · exact blocksOf_interlinked parentId parent depth start rest
end

theorem ofMachine_interlinked (machine : MachineSpec) :
    Interlinked none [0] 0 (ofMachine machine) :=
  block_interlinked _ _ _ _ _ _

end Layout

namespace StateTree

open Layout

variable {machine : MachineSpec} {n : Nat}

theorem size_ofMachine : (ofMachine machine).size = (Layout.ofMachine machine).length := by
  simp [ofMachine, size]

theorem exists_at (inTree : n < (ofMachine machine).size) :
    ∃ state, At 0 (Layout.ofMachine machine) n state := by
  rw [size_ofMachine] at inTree
  exact ⟨_, n, (Nat.zero_add n).symm, List.getElem?_eq_getElem inTree⟩

theorem node_of_at {state : PlacedState} (stands : At 0 (Layout.ofMachine machine) n state) :
    (ofMachine machine).node n = state.node := by
  obtain ⟨i, rfl, entry⟩ := stands
  simp [node, ofMachine, entry]

/-- Beyond the table stands the default node. -/
theorem node_of_size_le {tree : StateTree} (outside : tree.size ≤ n) : tree.node n = default := by
  simp [node, Array.getElem?_eq_none outside]

theorem linked_ofMachine (machine : MachineSpec) : (ofMachine machine).Linked := by
  have links := ofMachine_interlinked machine
  have downward : ∀ {n c : Nat}, c ∈ (ofMachine machine).children n →
      (ofMachine machine).parent? c = some n := by
    intro n c isChild
    have inTree : n < (ofMachine machine).size :=
      Nat.lt_trans ((ofMachine machine).child_bounds isChild).1
        ((ofMachine machine).child_bounds isChild).2
    obtain ⟨state, stands⟩ := exists_at inTree
    rw [children, node_of_at stands] at isChild
    obtain ⟨other, below, parent⟩ := links.downward stands isChild
    rw [parent?, node_of_at below, parent]
  constructor
  · intro n c
    refine ⟨fun isParent => ?_, downward⟩
    rcases Nat.lt_or_ge c (ofMachine machine).size with inTree | outside
    · obtain ⟨state, stands⟩ := exists_at inTree
      rw [parent?, node_of_at stands] at isParent
      rcases links.upward stands with ⟨_, orphan⟩ | ⟨p, other, above, parent, listed⟩
      · simp [orphan] at isParent
      · obtain rfl : p = n := Option.some.inj (parent.symm.trans isParent)
        rw [children, node_of_at above]
        exact listed
    · simp [parent?, node_of_size_le outside, default] at isParent
  · intro n
    rcases Nat.lt_or_ge n (ofMachine machine).size with inTree | outside
    · obtain ⟨state, stands⟩ := exists_at inTree
      rw [children, node_of_at stands]
      exact links.increasing stands
    · simp [children, node_of_size_le outside, default]
  · intro n inTree notRoot
    obtain ⟨state, stands⟩ := exists_at inTree
    rcases links.upward stands with ⟨member, _⟩ | ⟨p, _, _, parent, _⟩
    · exact absurd (List.mem_singleton.1 member) notRoot
    · exact ⟨p, by rw [parent?, node_of_at stands, parent]⟩
  · intro n isLeaf
    rcases Nat.lt_or_ge n (ofMachine machine).size with inTree | outside
    · obtain ⟨state, stands⟩ := exists_at inTree
      rw [StateTree.isLeaf, node_of_at stands] at isLeaf
      rw [children, node_of_at stands]
      exact links.leaf stands isLeaf
    · simp [children, node_of_size_le outside, default]

end StateTree

end Statechart
