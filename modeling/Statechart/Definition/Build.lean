import Statechart.Definition
import Statechart.Definition.Layout

/-!
# Building definitions

A specification is laid out, then the initial children and the targets are resolved
in the tree. Everything that is wrong is reported: first the id and the shape of the
tree, then repeated ids, then what does not resolve, state by state.
-/

namespace Statechart

/-- The ids that stand somewhere before themselves, once for every repetition. -/
def repeatedIds (seen : List String) : List String → List String
  | [] => []
  | id :: rest =>
    if id ∈ seen then id :: repeatedIds seen rest else repeatedIds (id :: seen) rest

namespace StateTree

variable (tree : StateTree)

/-- The initial child of a state, if it is declared as it should be. -/
def initialOf? (n : Nat) (spec : StateSpec) : Option Nat :=
  match tree.kind n with
  | .compound => spec.initial.bind (tree.childByKey? n)
  | .parallel | .atomic | .final => none

def initialErrors (n : Nat) (spec : StateSpec) : List DefinitionError :=
  let id := (tree.node n).id
  let kind := (tree.kind n).name
  match tree.kind n with
  | .compound =>
    if (tree.children n).isEmpty then [.emptyComposite id kind]
    else
      match spec.initial with
      | none => [.missingInitial id]
      | some key => if (tree.childByKey? n key).isNone then [.unknownInitial id key] else []
  | .parallel | .atomic | .final =>
    (if tree.kind n = .parallel ∧ (tree.children n).isEmpty then [.emptyComposite id kind]
      else []) ++
    (if spec.initial.isSome then [.unexpectedInitial id kind] else [])

/-- A candidate with its target resolved. -/
def transitionOf? (n : Nat) (event : String) (spec : TransitionSpec) : Option Transition :=
  match spec.target with
  | none => some ⟨event, n, none, spec.guard, spec.actions⟩
  | some text =>
    (tree.resolve? n text).map fun target => ⟨event, n, some target, spec.guard, spec.actions⟩

def transitionErrors (n : Nat) (event : String) (spec : TransitionSpec) :
    List DefinitionError :=
  match spec.target with
  | none => []
  | some text =>
    if (tree.resolve? n text).isNone then [.unresolvedTarget (tree.node n).id event text] else []

/-- The event that stands for a delayed transition. -/
def delayedEvent (n : Nat) (spec : DelayedSpec) : String :=
  "after(" ++ toString spec.millis.toNat ++ "ms)#" ++ (tree.node n).id

def delayedOf? (n : Nat) (spec : DelayedSpec) : Option DelayedTransition :=
  if spec.millis = 0 then none
  else (tree.resolve? n spec.target).map fun target =>
    ⟨spec.delay, tree.delayedEvent n spec, n, some target, none, spec.actions⟩

def delayedErrors (n : Nat) (spec : DelayedSpec) : List DefinitionError :=
  if spec.millis = 0 then [.zeroDelay (tree.node n).id]
  else if (tree.resolve? n spec.target).isNone then
    [.unresolvedTarget (tree.node n).id (tree.delayedEvent n spec) spec.target]
  else []

/-- What a state does, as far as it resolves. -/
def behaviourOf (n : Nat) (spec : StateSpec) : Behaviour where
  initial := tree.initialOf? n spec
  entry := spec.entry
  exit := spec.exit
  on := spec.on.map fun entry => (entry.1, entry.2.filterMap (tree.transitionOf? n entry.1))
  after := spec.after.filterMap (tree.delayedOf? n)

def behaviourErrors (n : Nat) (spec : StateSpec) : List DefinitionError :=
  tree.initialErrors n spec ++
    spec.on.flatMap (fun entry => entry.2.flatMap (tree.transitionErrors n entry.1)) ++
    spec.after.flatMap (tree.delayedErrors n)

theorem initialOf?_mem {n c : Nat} {spec : StateSpec} (found : tree.initialOf? n spec = some c) :
    c ∈ tree.children n := by
  unfold initialOf? at found
  split at found
  · obtain ⟨key, _, found⟩ := Option.bind_eq_some_iff.1 found
    exact tree.childByKey?_mem found
  all_goals simp at found

end StateTree

namespace MachineSpec

variable (machine : MachineSpec)

/-- The declarations of the states, in document order. -/
def declarations : List StateSpec := (Layout.ofMachine machine).map (·.spec)

/-- Everything that is wrong with a specification. -/
def problems : List DefinitionError :=
  let tree := StateTree.ofMachine machine
  (if machine.id.isEmpty then [.emptyId] else []) ++
  Layout.errors machine.id machine.root ++
  (repeatedIds [] (tree.nodes.toList.map (·.id))).map .duplicateId ++
  machine.declarations.zipIdx.flatMap fun (spec, n) => tree.behaviourErrors n spec

/-- The definition of a specification, as far as it resolves. -/
def resolved : Definition :=
  let tree := StateTree.ofMachine machine
  { tree with
    behaviours := (machine.declarations.mapIdx tree.behaviourOf).toArray
    context := machine.context
    initial_child := by
      intro n behaviour c entry isInitial
      simp only [List.getElem?_toArray, List.getElem?_mapIdx, Option.map_eq_some_iff] at entry
      obtain ⟨spec, _, rfl⟩ := entry
      exact tree.initialOf?_mem isInitial }

def build : Except DefinitionError Definition := do
  DefinitionError.collect machine.problems
  return machine.resolved

end MachineSpec

end Statechart
