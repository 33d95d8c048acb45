import Statechart.Proofs.Legality
import Statechart.Step.Scope

/-!
# The scopes of transitions

The scope of a transition that does not lead to the root is everything below its
domain or, when the domain is parallel, the subtree of the region that holds the
target. Of two scopes that meet one contains the other, and every scope holds an
active state; so transitions that exit no state in common have disjoint scopes.
-/

namespace Statechart

namespace StateTree

variable {tree : StateTree} {source target n m p : Nat}

/-- A source and a target of the tree, of which the target is not the root. -/
structure Aimed (tree : StateTree) (source target : Nat) : Prop where
  source_lt : source < tree.size
  target_lt : target < tree.size
  target_ne_root : target ≠ root

/-- A state lies in the scope of a transition between two states. -/
def InScope (tree : StateTree) (source target n : Nat) : Prop :=
  tree.inScope (tree.scope source target) n = true

theorem domain_eq_or (tree : StateTree) (source target : Nat) :
    (tree.scope source target).domain ∈ tree.ancestors source ∨
      (tree.scope source target).domain = root := by
  simp only [scope]
  cases found : (tree.ancestors source).find? (tree.isBelow target) with
  | none => exact .inr rfl
  | some domain => exact .inl (List.mem_of_find?_eq_some found)

/-- The source lies within its domain. -/
theorem source_within_domain (linked : tree.Linked) (inTree : source < tree.size) :
    tree.Within source (tree.scope source target).domain := by
  rcases tree.domain_eq_or source target with above | atRoot
  · exact .inr above
  · rw [atRoot]
    by_cases isRoot : source = root
    · exact .inl isRoot
    · exact .inr (linked.below_root inTree isRoot)

/-- Every state but the root lies below the domain of the transitions that lead to it. -/
theorem below_domain (linked : tree.Linked) (inTree : target < tree.size)
    (notRoot : target ≠ root) : tree.Below target (tree.scope source target).domain := by
  simp only [scope]
  cases found : (tree.ancestors source).find? (tree.isBelow target) with
  | none => exact linked.below_root inTree notRoot
  | some domain => exact isBelow_iff.1 (List.find?_some found)

/-- The target lies below the domain. -/
theorem target_below_domain (linked : tree.Linked) (aimed : tree.Aimed source target) :
    tree.Below target (tree.scope source target).domain :=
  below_domain linked aimed.target_lt aimed.target_ne_root

/-- A region that a scope is cut down to is the child of the domain that holds the target. -/
theorem region_of_parallel (below : tree.Below target (tree.scope source target).domain)
    (isParallel : tree.kind (tree.scope source target).domain = .parallel) :
    ∃ region, (tree.scope source target).region = some region ∧
      tree.parent? region = some (tree.scope source target).domain ∧
      tree.Within target region := by
  have cut : (tree.scope source target).region =
      (target :: tree.ancestors target).find? fun n =>
        tree.parent? n = some (tree.scope source target).domain := by
    rw [scope]
    simp only [scope] at isParallel
    exact if_pos isParallel
  obtain ⟨c, isChild, within⟩ := exists_child_toward below
  have onPath : c ∈ target :: tree.ancestors target :=
    List.mem_cons.2 (within.imp Eq.symm id)
  cases found : (tree.scope source target).region with
  | none =>
      rw [cut, List.find?_eq_none] at found
      exact absurd (decide_eq_true isChild) (found c onPath)
  | some region =>
      rw [cut] at found
      have isChild : tree.parent? region = some (tree.scope source target).domain := by
        simpa using List.find?_some found
      refine ⟨region, rfl, isChild, ?_⟩
      exact (List.mem_cons.1 (List.mem_of_find?_eq_some found)).imp Eq.symm id

theorem region_of_not_parallel
    (notParallel : tree.kind (tree.scope source target).domain ≠ .parallel) :
    (tree.scope source target).region = none := by
  simp only [scope] at notParallel ⊢
  exact if_neg notParallel

/-- The shape of a scope: all below a domain that is not parallel, or one region of a
parallel domain. -/
theorem inScope_shape (below : tree.Below target (tree.scope source target).domain) :
    (tree.kind (tree.scope source target).domain ≠ .parallel ∧
      ∀ n, tree.InScope source target n ↔
        tree.Below n (tree.scope source target).domain) ∨
    (tree.kind (tree.scope source target).domain = .parallel ∧
      ∃ region, tree.parent? region = some (tree.scope source target).domain ∧
        tree.Within target region ∧
        ∀ n, tree.InScope source target n ↔ tree.Within n region) := by
  by_cases isParallel : tree.kind (tree.scope source target).domain = .parallel
  · right
    obtain ⟨region, isRegion, isChild, within⟩ := region_of_parallel below isParallel
    refine ⟨isParallel, region, isChild, within, fun n => ?_⟩
    simp [InScope, inScope, isRegion, Within, isBelow_iff]
  · left
    refine ⟨isParallel, fun n => ?_⟩
    simp [InScope, inScope, region_of_not_parallel isParallel, isBelow_iff]

section Aimed

variable (below : tree.Below target (tree.scope source target).domain)

include below

theorem InScope.below_domain (inside : tree.InScope source target n) :
    tree.Below n (tree.scope source target).domain := by
  rcases inScope_shape below with ⟨_, shape⟩ | ⟨_, region, isChild, _, shape⟩
  · exact (shape n).1 inside
  · exact ((shape n).1 inside).below (below_of_parent isChild)

theorem InScope.downward (inside : tree.InScope source target n) (under : tree.Below m n) :
    tree.InScope source target m := by
  rcases inScope_shape below with ⟨_, shape⟩ | ⟨_, region, _, _, shape⟩
  · exact (shape m).2 (under.trans ((shape n).1 inside))
  · exact (shape m).2 (.inr (under.of_within ((shape n).1 inside)))

theorem not_inScope_domain : ¬ tree.InScope source target (tree.scope source target).domain :=
  fun inside => not_below_self (inside.below_domain below)

theorem inScope_target : tree.InScope source target target := by
  rcases inScope_shape below with ⟨_, shape⟩ | ⟨_, region, _, within, shape⟩
  · exact (shape target).2 below
  · exact (shape target).2 within

/-- Upwards a scope is left only at its domain. -/
theorem InScope.parent (inside : tree.InScope source target n)
    (isParent : tree.parent? n = some p) :
    p = (tree.scope source target).domain ∨ tree.InScope source target p := by
  rcases inScope_shape below with ⟨_, shape⟩ | ⟨_, region, isChild, _, shape⟩
  · exact (within_parent_of_below isParent ((shape n).1 inside)).imp_right (shape p).2
  · rcases (shape n).1 inside with rfl | under
    · exact .inl (Option.some.inj (isParent.symm.trans isChild))
    · exact .inr ((shape p).2 (within_parent_of_below isParent under))

/-- The way from the domain down to the target lies in the scope. -/
theorem inScope_of_path (within : tree.Within target n)
    (under : tree.Below n (tree.scope source target).domain) : tree.InScope source target n := by
  rcases inScope_shape below with ⟨_, shape⟩ | ⟨_, region, isChild, withinRegion, shape⟩
  · exact (shape n).2 under
  · apply (shape n).2
    rcases within.chain withinRegion with inside | same | above
    · exact inside
    · exact .inl same.symm
    · exact absurd (under.of_within (within_parent_of_below isChild above)) not_below_self

end Aimed

theorem InScope.parallel_domain_child
    (below : tree.Below target (tree.scope source target).domain)
    (isParallel : tree.kind (tree.scope source target).domain = .parallel)
    (isChild : tree.parent? n = some (tree.scope source target).domain) :
    tree.InScope source target n ↔ tree.Within target n := by
  rcases inScope_shape below with ⟨notParallel, _⟩ | ⟨_, region, isRegion, within, shape⟩
  · exact absurd isParallel notParallel
  · rw [shape n]
    constructor
    · intro inside
      obtain rfl := sibling_unique isChild isRegion (.inl rfl) inside
      exact within
    · intro holds
      exact .inl (sibling_unique isChild isRegion holds within)

/-- Of two scopes that meet one contains the other. -/
theorem inScope_nested {source' target' : Nat}
    (below : tree.Below target (tree.scope source target).domain)
    (below' : tree.Below target' (tree.scope source' target').domain)
    (inside : tree.InScope source target n) (inside' : tree.InScope source' target' n) :
    (∀ m, tree.InScope source target m → tree.InScope source' target' m) ∨
      (∀ m, tree.InScope source' target' m → tree.InScope source target m) := by
  rcases inScope_shape below with ⟨_, shape⟩ | ⟨_, region, _, _, shape⟩ <;>
    rcases inScope_shape below' with ⟨_, shape'⟩ | ⟨_, region', _, _, shape'⟩ <;>
    simp only [shape, shape'] at inside inside' ⊢
  · rcases inside.chain inside' with within | within
    · exact .inl fun m under => under.of_within within
    · exact .inr fun m under => under.of_within within
  · rcases (Within.chain (.inr inside) inside') with within | same | above
    · exact .inl fun m under => .inr (under.of_within within)
    · exact .inl fun m under => .inr (same ▸ under)
    · exact .inr fun m within => within.below above
  · rcases (Within.chain inside (.inr inside')) with (same | above) | within
    · exact .inr fun m under => .inr (same ▸ under)
    · exact .inl fun m within => within.below above
    · exact .inr fun m under => .inr (under.of_within within)
  · rcases inside.chain inside' with within | within
    · exact .inl fun m inner => inner.trans within
    · exact .inr fun m inner => inner.trans within

/-- The states from a state upwards that stand before one above it. -/
theorem mem_takeWhile_ancestors {d : Nat} (below : tree.Below m d) :
    n ∈ (m :: tree.ancestors m).takeWhile (· ≠ d) ↔ tree.Within m n ∧ tree.Below n d := by
  induction m using Nat.strongRecOn with
  | ind m ih =>
      obtain ⟨p, isParent, within⟩ := below_iff.1 below
      have different : m ≠ d := fun same => not_below_self (same ▸ below)
      rw [List.takeWhile_cons_of_pos (by simpa using different), ancestors_of_parent isParent,
        List.mem_cons]
      by_cases atDomain : p = d
      · subst atDomain
        rw [List.takeWhile_cons_of_neg (by simp)]
        constructor
        · rintro (rfl | member)
          · exact ⟨.inl rfl, below⟩
          · simp at member
        · rintro ⟨same | above, under⟩
          · exact .inl same.symm
          · have loop := under.of_within (within_parent_of_below isParent above)
            exact absurd loop not_below_self
      · have parentBelow := within.resolve_left atDomain
        rw [ih p (tree.parent_lt isParent) parentBelow]
        constructor
        · rintro (rfl | ⟨above, under⟩)
          · exact ⟨.inl rfl, below⟩
          · exact ⟨.inr (below_iff.2 ⟨p, isParent, above⟩), under⟩
        · rintro ⟨same | above, under⟩
          · exact .inl same.symm
          · exact .inr ⟨within_parent_of_below isParent above, under⟩

/-- A transition touches the states of its scope. -/
def Touches (tree : StateTree) (t : Transition) (n : Nat) : Prop :=
  ∃ g, t.target = some g ∧ tree.InScope t.source g n

theorem mem_exitSet {active : Configuration} {t : Transition} :
    n ∈ tree.exitSet active t ↔ n ∈ active ∧ tree.Touches t n := by
  unfold exitSet Touches
  cases t.target with
  | none => simp
  | some g => simp [StateSet.mem_filter, InScope]

theorem mem_entryPath {t : Transition} {g : Nat} (isTarget : t.target = some g)
    (below : tree.Below g (tree.scope t.source g).domain) :
    n ∈ tree.entryPath t ↔
      tree.Within g n ∧ tree.Below n (tree.scope t.source g).domain := by
  unfold entryPath
  simp only [isTarget, List.mem_reverse]
  exact mem_takeWhile_ancestors below

end StateTree

namespace Configuration

namespace Legal

open StateTree

variable {tree : StateTree} {active : Configuration} {source target : Nat}

theorem domain_active (legal : Legal tree active) (linked : tree.Linked)
    (isActive : source ∈ active) : (tree.scope source target).domain ∈ active :=
  legal.above_within isActive (source_within_domain linked (legal.inTree isActive))

/-- Every scope of an active source holds an active state. -/
theorem exists_active_inScope (legal : Legal tree active) (linked : tree.Linked)
    (isActive : source ∈ active)
    (below : tree.Below target (tree.scope source target).domain) :
    ∃ n ∈ active, tree.InScope source target n := by
  have domainActive : (tree.scope source target).domain ∈ active :=
    legal.domain_active linked isActive
  rcases inScope_shape below with ⟨notParallel, shape⟩ | ⟨isParallel, region, isChild, _, shape⟩
  · have isCompound := (linked.kind_of_below below).resolve_right notParallel
    obtain ⟨c, isChild, childActive, _⟩ := legal.compound domainActive isCompound
    exact ⟨c, childActive, (shape c).2 (linked.child_below isChild)⟩
  · exact ⟨region, legal.parallel domainActive isParallel region (linked.parent_iff.1 isChild),
      (shape region).2 (.inl rfl)⟩

end Legal

end Configuration

end Statechart
