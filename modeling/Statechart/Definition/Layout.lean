import Statechart.Definition.Error
import Statechart.Definition.Tree

/-!
# Laying out a specification

The states of a specification in pre-order. Each child takes a block of positions
after those of the children before it, so the children of a state are the starts of
its blocks. A child under a key that paths could not name is left out, and so are
the children of a leaf.
-/

namespace Statechart

/-- A state in its place, with what was declared for it. -/
structure PlacedState where
  node : StateNode
  spec : StateSpec

namespace Layout

/-- A key must not be empty and must not contain the characters that targets use. -/
def keyAllowed (key : String) : Bool :=
  !key.isEmpty && key.toList.all fun c => c != '.' && c != '#'

/-- Where the blocks start that follow one another from a position. -/
def blockStarts (start : Nat) : List (List PlacedState) → List Nat
  | [] => []
  | block :: rest => start :: blockStarts (start + block.length) rest

mutual
/-- The block of a state that starts at a position. -/
def block (key id : String) (parent : Option Nat) (depth start : Nat) :
    StateSpec → List PlacedState
  | spec@⟨explicit, _, _, _, _, _, _, states⟩ =>
    let id := explicit.getD id
    let kind := spec.resolvedKind
    let blocks := if kind.isLeaf then [] else blocksOf id start depth (start + 1) states
    ⟨⟨id, key, kind, parent, blockStarts (start + 1) blocks, depth⟩, spec⟩ :: blocks.flatten

def blocksOf (parentId : String) (parent depth start : Nat) :
    List (String × StateSpec) → List (List PlacedState)
  | [] => []
  | child :: rest =>
    if keyAllowed child.1 then
      let id := parentId ++ "." ++ child.1
      let first := block child.1 id (some parent) (depth + 1) start child.2
      first :: blocksOf parentId parent depth (start + first.length) rest
    else blocksOf parentId parent depth start rest
end

mutual
/-- What is wrong with the shape of a subtree, in document order. -/
def errors (id : String) : StateSpec → List DefinitionError
  | spec@⟨explicit, _, _, _, _, _, _, states⟩ =>
    let id := explicit.getD id
    let kind := spec.resolvedKind
    if kind.isLeaf then
      if states.isEmpty then [] else [.childrenOnLeaf id kind.name]
    else errorsBelow id states

def errorsBelow (parentId : String) : List (String × StateSpec) → List DefinitionError
  | [] => []
  | child :: rest =>
    (if keyAllowed child.1 then errors (parentId ++ "." ++ child.1) child.2
      else [.invalidKey parentId child.1]) ++ errorsBelow parentId rest
end

/-- The nodes of a stretch of positions: each has its children later in the stretch, and
its parent at some earlier position. -/
def Nested (start : Nat) (placed : List PlacedState) : Prop :=
  ∀ i state, placed[i]? = some state →
    (∀ c ∈ state.node.children, start + i < c ∧ c < start + placed.length) ∧
    ∀ p, state.node.parent = some p → p < start + i

theorem Nested.append {start : Nat} {first second : List PlacedState}
    (left : Nested start first) (right : Nested (start + first.length) second) :
    Nested start (first ++ second) := by
  intro i state entry
  rw [List.length_append]
  rcases Nat.lt_or_ge i first.length with inside | outside
  · rw [List.getElem?_append_left inside] at entry
    obtain ⟨children, parent⟩ := left i state entry
    exact ⟨fun c member => by have := children c member; omega, parent⟩
  · rw [List.getElem?_append_right outside] at entry
    obtain ⟨children, parent⟩ := right _ state entry
    exact ⟨fun c member => by have := children c member; omega,
      fun p isParent => by have := parent p isParent; omega⟩

theorem Nested.cons {start : Nat} {state : PlacedState} {rest : List PlacedState}
    (children : ∀ c ∈ state.node.children, start < c ∧ c < start + 1 + rest.length)
    (parent : ∀ p, state.node.parent = some p → p < start) (tail : Nested (start + 1) rest) :
    Nested start (state :: rest) := by
  intro i other entry
  rw [List.length_cons]
  cases i with
  | zero =>
      obtain rfl : state = other := by simpa using entry
      exact ⟨fun c member => by have := children c member; omega, parent⟩
  | succ i =>
      obtain ⟨children, parent⟩ := tail i other (by simpa using entry)
      exact ⟨fun c member => by have := children c member; omega,
        fun p isParent => by have := parent p isParent; omega⟩

theorem mem_blockStarts {start c : Nat} {blocks : List (List PlacedState)}
    (nonempty : ∀ block ∈ blocks, 0 < block.length) (member : c ∈ blockStarts start blocks) :
    start ≤ c ∧ c < start + blocks.flatten.length := by
  induction blocks generalizing start with
  | nil => simp [blockStarts] at member
  | cons block rest ih =>
      have positive := nonempty block (.head _)
      rw [List.flatten_cons, List.length_append]
      rcases List.mem_cons.1 member with rfl | member
      · omega
      · have := ih (fun other later => nonempty other (.tail _ later)) member
        omega

mutual
theorem block_nested (key id : String) (parent : Option Nat) (depth start : Nat)
    (before : ∀ p, parent = some p → p < start) :
    (spec : StateSpec) → Nested start (block key id parent depth start spec) ∧
      0 < (block key id parent depth start spec).length
  | ⟨explicit, _, _, _, _, _, _, states⟩ => by
      rw [block]
      refine ⟨Nested.cons ?_ before ?_, Nat.succ_pos _⟩
      · intro c member
        split at member
        · simp [blockStarts] at member
        · next composite =>
          rw [if_neg composite]
          have := mem_blockStarts
            (blocksOf_nested _ start depth (start + 1) (Nat.lt_succ_self _) states).2 member
          omega
      · split
        · intro i state entry
          simp at entry
        · exact (blocksOf_nested _ start depth (start + 1) (Nat.lt_succ_self _) states).1

theorem blocksOf_nested (parentId : String) (parent depth start : Nat) (before : parent < start) :
    (states : List (String × StateSpec)) →
      Nested start (blocksOf parentId parent depth start states).flatten ∧
      ∀ block ∈ blocksOf parentId parent depth start states, 0 < block.length
  | [] => by
      rw [blocksOf]
      exact ⟨fun i state entry => by simp at entry, by simp⟩
  | child :: rest => by
      rw [blocksOf]
      split
      · obtain ⟨nested, positive⟩ := block_nested child.1 (parentId ++ "." ++ child.1)
          (some parent) (depth + 1) start (fun p same => Option.some.inj same ▸ before) child.2
        obtain ⟨later, laterPositive⟩ := blocksOf_nested parentId parent depth
          (start + (block child.1 (parentId ++ "." ++ child.1) (some parent) (depth + 1) start
            child.2).length) (by omega) rest
        exact ⟨nested.append later, fun other member => by
          rcases List.mem_cons.1 member with rfl | member
          · exact positive
          · exact laterPositive other member⟩
      · exact blocksOf_nested parentId parent depth start before rest
end

def ofMachine (machine : MachineSpec) : List PlacedState :=
  block machine.id machine.id none 0 0 machine.root

theorem ofMachine_nested (machine : MachineSpec) :
    Nested 0 (ofMachine machine) ∧ 0 < (ofMachine machine).length :=
  block_nested _ _ _ _ _ (by simp) _

end Layout

def StateTree.ofMachine (machine : MachineSpec) : StateTree where
  nodes := ((Layout.ofMachine machine).map (·.node)).toArray
  inhabited := by simpa using (Layout.ofMachine_nested machine).2
  parent_before := by
    intro n node p entry isParent
    simp only [List.getElem?_toArray, List.getElem?_map, Option.map_eq_some_iff] at entry
    obtain ⟨state, entry, rfl⟩ := entry
    simpa using ((Layout.ofMachine_nested machine).1 n state entry).2 p isParent
  child_after := by
    intro n node c entry isChild
    simp only [List.getElem?_toArray, List.getElem?_map, Option.map_eq_some_iff] at entry
    obtain ⟨state, entry, rfl⟩ := entry
    simpa using ((Layout.ofMachine_nested machine).1 n state entry).1 c isChild

end Statechart
