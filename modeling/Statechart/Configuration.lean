import Statechart.Definition
import Statechart.StateSet
import Statechart.StateValue

/-!
# Configurations

The active states of a machine. A configuration is legal when it holds states of the
tree only, the root is active, every active state has an active parent, an active
compound state has exactly one active child and an active parallel state has them
all. A legal configuration and its state value determine each other.
-/

namespace Statechart

abbrev Configuration := StateSet

inductive ValueError
  | unknownState (parent key : String)
  | shapeMismatch (state : String)
  | ambiguousChild (state : String)
  | missingRegion (state region : String)
  deriving DecidableEq

def ValueError.message : ValueError → String
  | .unknownState parent key => s!"State '{parent}' has no child '{key}'"
  | .shapeMismatch state => s!"Value for state '{state}' does not match its kind"
  | .ambiguousChild state => s!"Compound state '{state}' must have exactly one active child"
  | .missingRegion state region => s!"Parallel state '{state}' is missing region '{region}'"

namespace StateTree

variable (tree : StateTree)

theorem measure_lt_of_child {n c : Nat} (isChild : c ∈ tree.children n) :
    tree.size - c < tree.size - n := by
  have := tree.child_bounds isChild
  omega

theorem child_of_find {n c : Nat} {test : Nat → Bool}
    (found : (tree.children n).find? test = some c) : c ∈ tree.children n :=
  List.mem_of_find?_eq_some found

end StateTree

namespace Definition

variable (definition : Definition)

set_option linter.unusedVariables false in
/-- A state with the descendants that are entered with it by default: from a compound
state its initial child, from a parallel state all children. -/
def defaultEntry (n : Nat) : List Nat :=
  match definition.kind n with
  | .compound =>
    match isInitial : definition.initial? n with
    | some initial => n :: defaultEntry initial
    | none => [n]
  | .parallel => n :: (definition.children n).attach.flatMap fun child => defaultEntry child.1
  | .atomic | .final => [n]
termination_by definition.size - n
decreasing_by
  · exact definition.measure_lt_of_child (definition.initial_mem_children isInitial)
  · exact definition.measure_lt_of_child child.2

def initialConfiguration : Configuration := .ofList (definition.defaultEntry StateTree.root)

end Definition

namespace Configuration

variable (tree : StateTree) (active : Configuration)

/-- The active leaves, in document order. -/
def leaves : List Nat := active.toList.filter tree.isLeaf

def leafIds : List String := (leaves tree active).map fun n => (tree.node n).id

def activeChildren (n : Nat) : List Nat := (tree.children n).filter active.contains

def isLegal : Bool :=
  active.contains StateTree.root && active.toList.all fun n =>
    n < tree.size && (tree.parent? n).all active.contains &&
    match tree.kind n with
    | .compound => (activeChildren tree active n).length == 1
    | .parallel => (activeChildren tree active n).length == (tree.children n).length
    | .atomic | .final => true

set_option linter.unusedVariables false in
/-- Whether a state has settled: a final state that is active, a compound state whose
active child has settled, a parallel state whose children all have. -/
def isInFinal (n : Nat) : Bool :=
  match tree.kind n with
  | .final => active.contains n
  | .atomic => false
  | .compound =>
    match found : (tree.children n).find? active.contains with
    | some child => isInFinal child
    | none => false
  | .parallel => (tree.children n).attach.all fun child => isInFinal child.1
termination_by tree.size - n
decreasing_by
  · exact tree.measure_lt_of_child (tree.child_of_find found)
  · exact tree.measure_lt_of_child child.2

set_option linter.unusedVariables false in
/-- The value of what is active below a state. -/
def regionValue (n : Nat) : StateValue :=
  match tree.kind n with
  | .compound =>
    match found : (tree.children n).find? active.contains with
    | none => .nested []
    | some child =>
      if tree.isLeaf child then .leaf (tree.node child).key
      else .nested [((tree.node child).key, regionValue child)]
  | .parallel =>
    .nested <| Keyed.sort <|
      (tree.children n).attach.map fun child => ((tree.node child.1).key, regionValue child.1)
  | .atomic | .final => .nested []
termination_by tree.size - n
decreasing_by
  · exact tree.measure_lt_of_child (tree.child_of_find found)
  · exact tree.measure_lt_of_child child.2

/-- The state value of a configuration; a root without children stands for itself. -/
def value : StateValue :=
  if tree.isLeaf StateTree.root then .leaf (tree.node StateTree.root).key
  else regionValue tree active StateTree.root

set_option linter.unusedVariables false in
/-- The states that a value makes active below a state. -/
def statesBelow (n : Nat) (value : StateValue) : Except ValueError (List Nat) :=
  let id := (tree.node n).id
  match tree.kind n, value with
  | .compound, .leaf key =>
    match tree.childByKey? n key with
    | none => .error (.unknownState id key)
    | some child =>
      if tree.isLeaf child then .ok [child] else .error (.shapeMismatch (tree.node child).id)
  | .compound, .nested [(key, inner)] =>
    match found : tree.childByKey? n key with
    | none => .error (.unknownState id key)
    | some child =>
      if tree.isLeaf child then .error (.shapeMismatch (tree.node child).id)
      else (statesBelow child inner).map (child :: ·)
  | .compound, .nested _ => .error (.ambiguousChild id)
  | .parallel, .nested regions =>
    match regions.find? fun region => (tree.childByKey? n region.1).isNone with
    | some region => .error (.unknownState id region.1)
    | none => do
      let parts ← (tree.children n).attach.mapM fun child =>
        match regions.lookup (tree.node child.1).key with
        | none => .error (.missingRegion id (tree.node child.1).key)
        | some inner => (statesBelow child.1 inner).map (child.1 :: ·)
      return parts.flatten
  | .atomic, .nested [] | .final, .nested [] => .ok []
  | _, _ => .error (.shapeMismatch id)
termination_by tree.size - n
decreasing_by
  · exact tree.measure_lt_of_child (tree.childByKey?_mem found)
  · exact tree.measure_lt_of_child child.2

def ofValue (value : StateValue) : Except ValueError Configuration :=
  if tree.isLeaf StateTree.root then
    if value = .leaf (tree.node StateTree.root).key then .ok (.ofList [StateTree.root])
    else .error (.shapeMismatch tree.machineId)
  else do
    let states ← statesBelow tree StateTree.root value
    return .ofList (StateTree.root :: states)

end Configuration

end Statechart
