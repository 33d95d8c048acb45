import Statechart.Configuration

/-!
# The scope of a transition

A transition with a target exits and enters states below its domain: the nearest
proper ancestor of its source that contains the target. Below a parallel domain only
the region that holds the target is touched; the other regions, the source's own
among them, keep their active states.
-/

namespace Statechart

structure Scope where
  domain : Nat
  region : Option Nat
  deriving DecidableEq

namespace StateTree

variable (tree : StateTree)

def scope (source target : Nat) : Scope :=
  let domain := ((tree.ancestors source).find? (tree.isBelow target)).getD root
  { domain
    region :=
      if tree.kind domain = .parallel then
        (target :: tree.ancestors target).find? fun n => tree.parent? n = some domain
      else none }

def inScope (scope : Scope) (n : Nat) : Bool :=
  match scope.region with
  | some region => n = region || tree.isBelow n region
  | none => tree.isBelow n scope.domain

/-- The active states that a transition exits. -/
def exitSet (active : Configuration) (transition : Transition) : StateSet :=
  match transition.target with
  | none => .empty
  | some target => active.filter (tree.inScope (tree.scope transition.source target))

/-- The states from just below the domain down to the target. -/
def entryPath (transition : Transition) : List Nat :=
  match transition.target with
  | none => []
  | some target =>
    let domain := (tree.scope transition.source target).domain
    ((target :: tree.ancestors target).takeWhile (· ≠ domain)).reverse

end StateTree

end Statechart
