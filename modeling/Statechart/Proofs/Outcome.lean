import Statechart.Proofs.Progress
import Statechart.Proofs.Succession

/-!
# The outcome of an event

In a legal configuration the transitions that an event takes determine where the step
ends: their targets are active, nothing changes outside their scopes, and what is entered
inside and is not on the way to a target is entered by default. This is what the step
commits once its actions have all succeeded.
-/

namespace Statechart

namespace StateTree

variable {tree : StateTree} {source target n : Nat}

/-- A state lies in the scope of a transition: below the domain or, if the domain is
parallel, in the region of the domain that holds the target. -/
def Encloses (tree : StateTree) (source target n : Nat) : Prop :=
  if tree.kind (tree.scope source target).domain = .parallel then
    ∃ region, tree.parent? region = some (tree.scope source target).domain ∧
      tree.Within target region ∧ tree.Within n region
  else tree.Below n (tree.scope source target).domain

theorem encloses_iff (below : tree.Below target (tree.scope source target).domain) :
    tree.Encloses source target n ↔ tree.InScope source target n := by
  unfold Encloses
  rcases inScope_shape below with
    ⟨notParallel, shape⟩ | ⟨isParallel, region, isRegion, within, shape⟩
  · rw [if_neg notParallel, shape]
  · rw [if_pos isParallel, shape]
    constructor
    · rintro ⟨other, isOther, alsoWithin, inside⟩
      obtain rfl := sibling_unique isOther isRegion alsoWithin within
      exact inside
    · exact fun inside => ⟨region, isRegion, within, inside⟩

end StateTree

namespace Definition

open StateTree

variable {definition : Definition} {active after : Configuration} {transitions : List Transition}

end Definition

variable {σ Listener : Type}

namespace Program

open StateTree

variable {program : Program σ Listener}

end Program

namespace Program

end Program

end Statechart
