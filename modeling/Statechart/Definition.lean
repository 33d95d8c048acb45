import Statechart.Definition.Tree

/-!
# Definitions

A state tree with what each state does: its entry and exit actions, its transitions
with their targets resolved, and the child in which it starts.
-/

namespace Statechart

/-- A transition between states of a tree. Without a target it leaves no state. -/
structure Transition where
  event : String
  source : Nat
  target : Option Nat
  guard : Option String
  actions : List String
  deriving DecidableEq

/-- A transition taken once its source has been active for the delay. -/
structure DelayedTransition where
  delay : Duration
  transition : Transition
  deriving DecidableEq

structure Behaviour where
  /-- The child that a compound state starts in. -/
  initial : Option Nat := none
  entry : List String := []
  exit : List String := []
  /-- The candidates of every event, in declared order. -/
  on : List (String × List Transition) := []
  after : List DelayedTransition := []
  deriving DecidableEq

instance : Inhabited Behaviour := ⟨{}⟩

structure Definition extends StateTree where
  behaviours : Array Behaviour
  context : Context
  initial_child : ∀ n (behaviour : Behaviour) c, behaviours[n]? = some behaviour →
    behaviour.initial = some c → c ∈ toStateTree.children n

namespace Definition

variable (definition : Definition)

def behaviour (n : Nat) : Behaviour := definition.behaviours[n]?.getD default

def initial? (n : Nat) : Option Nat := (definition.behaviour n).initial

theorem initial_mem_children {n c : Nat} (isInitial : definition.initial? n = some c) :
    c ∈ definition.children n := by
  unfold initial? behaviour at isInitial
  cases entry : definition.behaviours[n]? with
  | none => simp [entry, default] at isInitial
  | some behaviour =>
      exact definition.initial_child n behaviour c entry (by simpa [entry] using isInitial)

def candidates? (n : Nat) (event : String) : Option (List Transition) :=
  (definition.behaviour n).on.lookup event

/-- All transitions of a state, those on events first. -/
def transitions (n : Nat) : List Transition :=
  (definition.behaviour n).on.flatMap (·.2) ++
    (definition.behaviour n).after.map (·.transition)

/-- The names of the actions of a state: on entry, on exit, then of its transitions. -/
def actionNames (n : Nat) : List String :=
  (definition.behaviour n).entry ++ (definition.behaviour n).exit ++
    (definition.transitions n).flatMap (·.actions)

def guardNames (n : Nat) : List String :=
  ((definition.behaviour n).on.flatMap (·.2)).filterMap (·.guard)

/-- Whether a pair of texts stands before another. -/
def pairBefore (a b : String × String) : Bool := a.1 < b.1 || (a.1 == b.1 && a.2 < b.2)

/-- Inserts a pair at its place; a pair that is there already is not repeated. -/
def insertPair (pair : String × String) : List (String × String) → List (String × String)
  | [] => [pair]
  | head :: rest =>
    if pairBefore pair head then pair :: head :: rest
    else if pair = head then head :: rest
    else head :: insertPair pair rest

/-- Names with the ids of the states that use them, in order and without repetition. -/
def references (names : Nat → List String) : List (String × String) :=
  ((List.range definition.size).flatMap fun n =>
    (names n).map fun name => (name, (definition.node n).id)).foldl
    (fun sorted pair => insertPair pair sorted) []

def actionReferences : List (String × String) := definition.references definition.actionNames

def guardReferences : List (String × String) := definition.references definition.guardNames

end Definition

end Statechart
