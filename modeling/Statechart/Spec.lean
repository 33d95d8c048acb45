import Statechart.Context
import Statechart.Duration

/-!
# Specifications of state trees

A specification nests states by key, in the order they are declared. A state
without a declared kind is compound when it has children and atomic otherwise.
Targets of transitions are texts that are resolved when the tree is built.
-/

namespace Statechart

/-- Atomic and final states are leaves; one child of an active compound state is
active, and every child of an active parallel state. -/
inductive StateKind
  | atomic
  | compound
  | parallel
  | final
  deriving DecidableEq, Inhabited

namespace StateKind

def isLeaf : StateKind → Bool
  | .atomic | .final => true
  | .compound | .parallel => false

def name : StateKind → String
  | .atomic => "atomic"
  | .compound => "compound"
  | .parallel => "parallel"
  | .final => "final"

def ofName? (name : String) : Option StateKind :=
  if name = "atomic" then some .atomic
  else if name = "compound" then some .compound
  else if name = "parallel" then some .parallel
  else if name = "final" then some .final
  else none

end StateKind

/-- A transition as declared. Without a target it only runs its actions. -/
structure TransitionSpec where
  target : Option String := none
  guard : Option String := none
  actions : List String := []
  deriving DecidableEq

namespace TransitionSpec

def leadingTo (target : String) : TransitionSpec := { target := some target }

/-- A transition that runs its actions and leaves no state. -/
def internal : TransitionSpec := {}

def action (transition : TransitionSpec) (name : String) : TransitionSpec :=
  { transition with actions := transition.actions ++ [name] }

def guardedBy (transition : TransitionSpec) (name : String) : TransitionSpec :=
  { transition with guard := some name }

end TransitionSpec

/-- A transition taken once its state has been active for a number of milliseconds. -/
structure DelayedSpec where
  millis : UInt64
  target : String
  actions : List String := []
  deriving DecidableEq

namespace DelayedSpec

/-- A part of a millisecond counts as a whole one, so only no delay at all gives zero. -/
def after (delay : Duration) (target : String) : DelayedSpec :=
  { millis := delay.ceilMillis, target }

def action (delayed : DelayedSpec) (name : String) : DelayedSpec :=
  { delayed with actions := delayed.actions ++ [name] }

def delay (delayed : DelayedSpec) : Duration := .ofMillis delayed.millis

end DelayedSpec

/-- A state with its subtree. An explicit id replaces the dotted path of keys. -/
structure StateSpec where
  id : Option String := none
  kind : Option StateKind := none
  initial : Option String := none
  entry : List String := []
  exit : List String := []
  on : List (String × List TransitionSpec) := []
  after : List DelayedSpec := []
  states : List (String × StateSpec) := []

namespace StateSpec

instance : Inhabited StateSpec := ⟨{}⟩

def ofKind (kind : StateKind) : StateSpec := { kind := some kind }

def atomic : StateSpec := ofKind .atomic

def parallel : StateSpec := ofKind .parallel

def final : StateSpec := ofKind .final

/-- A compound state that starts in the child under `initial`. -/
def compound (initial : String) : StateSpec :=
  { kind := some .compound, initial := some initial }

def withId (state : StateSpec) (id : String) : StateSpec := { state with id := some id }

def startingIn (state : StateSpec) (key : String) : StateSpec :=
  { state with initial := some key }

def onEntry (state : StateSpec) (action : String) : StateSpec :=
  { state with entry := state.entry ++ [action] }

def onExit (state : StateSpec) (action : String) : StateSpec :=
  { state with exit := state.exit ++ [action] }

/-- Adds a candidate for an event, tried after those declared before. -/
def candidate (state : StateSpec) (event : String) (transition : TransitionSpec) : StateSpec :=
  { state with
    on := Keyed.put event ((state.on.lookup event).getD [] ++ [transition]) state.on }

def delayed (state : StateSpec) (transition : DelayedSpec) : StateSpec :=
  { state with after := state.after ++ [transition] }

def child (state : StateSpec) (key : String) (child : StateSpec) : StateSpec :=
  { state with states := Keyed.put key child state.states }

/-- The declared kind, or the one that the children suggest. -/
def resolvedKind (state : StateSpec) : StateKind :=
  state.kind.getD (if state.states.isEmpty then .atomic else .compound)

mutual
def beq : StateSpec → StateSpec → Bool
  | ⟨id, kind, initial, entry, exit, on, after, states⟩,
    ⟨id', kind', initial', entry', exit', on', after', states'⟩ =>
    id == id' && kind == kind' && initial == initial' && entry == entry' && exit == exit' &&
      on == on' && after == after' && beqStates states states'

def beqStates : List (String × StateSpec) → List (String × StateSpec) → Bool
  | [], [] => true
  | a :: as, b :: bs => a.1 == b.1 && a.2.beq b.2 && beqStates as bs
  | _, _ => false
end

instance : BEq StateSpec := ⟨beq⟩

end StateSpec

/-- A machine: its id, the context it starts from and its root state. -/
structure MachineSpec where
  id : String
  context : Context := .empty
  root : StateSpec := {}

namespace MachineSpec

def named (id : String) : MachineSpec := { id }

def withContext (machine : MachineSpec) (context : Context) : MachineSpec :=
  { machine with context }

def parallel (machine : MachineSpec) : MachineSpec :=
  { machine with root := { machine.root with kind := some .parallel } }

def startingIn (machine : MachineSpec) (key : String) : MachineSpec :=
  { machine with root := machine.root.startingIn key }

def onEntry (machine : MachineSpec) (action : String) : MachineSpec :=
  { machine with root := machine.root.onEntry action }

def candidate (machine : MachineSpec) (event : String) (transition : TransitionSpec) :
    MachineSpec :=
  { machine with root := machine.root.candidate event transition }

def child (machine : MachineSpec) (key : String) (child : StateSpec) : MachineSpec :=
  { machine with root := machine.root.child key child }

/-- Equality of machines, numbers in the context compared as numbers. -/
def same (a b : MachineSpec) : Bool :=
  a.id == b.id && a.context.same b.context && a.root == b.root

end MachineSpec

end Statechart
