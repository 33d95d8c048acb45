import Statechart.Path
import Statechart.Spec

/-!
# State trees

The states of a machine in document order, each with its place in the tree. A state
is named by its position. Parents stand before their children, so a walk towards
the root and a walk towards the leaves both end.
-/

namespace Statechart

structure StateNode where
  /-- Unique in a machine: given explicitly, or the dotted path of keys. -/
  id : String
  /-- Names the state among its siblings; the key of the root is its id. -/
  key : String
  kind : StateKind
  parent : Option Nat
  children : List Nat
  depth : Nat
  deriving DecidableEq

namespace StateNode

instance : Inhabited StateNode := ⟨⟨"", "", .atomic, none, [], 0⟩⟩

def isLeaf (node : StateNode) : Bool := node.kind.isLeaf

end StateNode

structure StateTree where
  nodes : Array StateNode
  inhabited : 0 < nodes.size
  parent_before : ∀ n (node : StateNode) p, nodes[n]? = some node → node.parent = some p → p < n
  child_after : ∀ n (node : StateNode) c, nodes[n]? = some node → c ∈ node.children →
    n < c ∧ c < nodes.size

namespace StateTree

variable (tree : StateTree)

def size : Nat := tree.nodes.size

def root : Nat := 0

/-- The place of a state; beyond the table stands a leaf without relatives. -/
def node (n : Nat) : StateNode := tree.nodes[n]?.getD default

def kind (n : Nat) : StateKind := (tree.node n).kind

def isLeaf (n : Nat) : Bool := (tree.node n).isLeaf

def children (n : Nat) : List Nat := (tree.node n).children

def parent? (n : Nat) : Option Nat := (tree.node n).parent

/-- The id of the root, which names the machine. -/
def machineId : String := (tree.node root).id

theorem parent_lt {n p : Nat} (isParent : tree.parent? n = some p) : p < n := by
  unfold parent? node at isParent
  cases entry : tree.nodes[n]? with
  | none => simp [entry, default] at isParent
  | some node => exact tree.parent_before n node p entry (by simpa [entry] using isParent)

theorem child_bounds {n c : Nat} (isChild : c ∈ tree.children n) : n < c ∧ c < tree.size := by
  unfold children node at isChild
  cases entry : tree.nodes[n]? with
  | none => simp [entry, default] at isChild
  | some node => exact tree.child_after n node c entry (by simpa [entry] using isChild)

set_option linter.unusedVariables false in
def ancestors (n : Nat) : List Nat :=
  match isParent : tree.parent? n with
  | none => []
  | some p => p :: ancestors p
termination_by n
decreasing_by exact tree.parent_lt isParent

def isBelow (n ancestor : Nat) : Bool := (tree.ancestors n).contains ancestor

def childByKey? (n : Nat) (key : String) : Option Nat :=
  (tree.children n).find? fun child => (tree.node child).key == key

theorem childByKey?_mem {n c : Nat} {key : String} (found : tree.childByKey? n key = some c) :
    c ∈ tree.children n := List.mem_of_find?_eq_some found

def descend? (n : Nat) (keys : List String) : Option Nat := keys.foldlM tree.childByKey? n

/-- The state with an id; of several the last. -/
def lookup? (id : String) : Option Nat :=
  (List.range tree.size).reverse.find? fun n => (tree.node n).id == id

/-- The state that an absolute target names: the longest front of it that is an id,
such that the keys after that front lead on from there. -/
def resolveAbsolute? (target : List Char) : Option Nat :=
  (tree.lookup? (String.ofList target)).or <|
    (Path.cuts target).findSome? fun (front, back) => do
      let base ← tree.lookup? (String.ofList front)
      tree.descend? base ((Path.split back).map String.ofList)

/-- The state that a target names, seen from a source: an absolute target starts with
`#`, one that starts with a dot descends from the source, and any other descends from
the parent of the source, or from the root if that is the source. -/
def resolve? (source : Nat) (target : String) : Option Nat :=
  match target.toList with
  | '#' :: absolute => tree.resolveAbsolute? absolute
  | '.' :: below => tree.descend? source ((Path.split below).map String.ofList)
  | relative =>
    let base := (tree.parent? source).getD source
    tree.descend? base ((Path.split relative).map String.ofList)

end StateTree

end Statechart
