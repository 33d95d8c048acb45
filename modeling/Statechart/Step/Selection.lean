import Statechart.Step.Scope

/-!
# Selecting transitions

Every active leaf looks upwards for the nearest state with a candidate whose guard
passes, so an inner handler shadows an outer one. Of two chosen transitions that
would exit a state in common the one chosen first is kept, unless the later one
starts strictly inside it.
-/

namespace Statechart

/-- A guard sees the context and the event. -/
abbrev Guard := Context → String → Bool

namespace Definition

variable (definition : Definition) (guards : String → Option Guard)
variable (active : Configuration) (context : Context) (event : String)

/-- Whether the guard of a candidate passes; a guard that nobody provides does not. -/
def passes (candidate : Transition) : Bool :=
  match candidate.guard with
  | none => true
  | some name => (guards name).any fun guard => guard context event

def candidateOf? (n : Nat) : Option Transition :=
  ((definition.candidates? n event).getD []).find? (passes guards context event)

def chosenBy? (leaf : Nat) : Option Transition :=
  (leaf :: definition.ancestors leaf).findSome? (definition.candidateOf? guards context event)

/-- The transitions that the active leaves choose, in document order of the leaves. -/
def enabled : List Transition :=
  (Configuration.leaves definition.toStateTree active).foldl (fun chosen leaf =>
    match definition.chosenBy? guards context event leaf with
    | some transition => if transition ∈ chosen then chosen else chosen ++ [transition]
    | none => chosen) []

/-- Whether two transitions would exit a state in common. -/
def conflicts (a b : Transition) : Bool :=
  !(definition.exitSet active a).isDisjoint (definition.exitSet active b)

/-- Weighs a transition against those kept so far: it displaces those it conflicts with, if
it starts inside all of them, and is dropped otherwise. -/
def consider (kept : List Transition) (transition : Transition) : List Transition :=
  let opposed := kept.filter (definition.conflicts active transition)
  if opposed.all fun other => definition.isBelow transition.source other.source then
    kept.filter (fun other => !definition.conflicts active transition other) ++ [transition]
  else kept

def removeConflicts (transitions : List Transition) : List Transition :=
  transitions.foldl (definition.consider active) []

/-- The transitions that an event takes. -/
def select : List Transition :=
  definition.removeConflicts active (definition.enabled guards active context event)

end Definition

end Statechart
