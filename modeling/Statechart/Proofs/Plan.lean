import Statechart.Proofs.Completion
import Statechart.Proofs.Scope
import Mathlib.Tactic.ByContra
import Mathlib.Tactic.Push

/-!
# Where a step leads

Transitions of active states that exit no state in common, none of them to the root,
lead from a legal configuration to a legal one: their scopes are disjoint, outside of
them nothing changes, and inside the way to the target is entered and completed by
default. No other legal configuration does the same.
-/

namespace Statechart

namespace Definition

open StateTree

/-- Transitions that can be taken together in a legal configuration: they are of active
states, lead to states of the tree, and no two of them exit a state in common. -/
structure Compatible (definition : Definition) (active : Configuration)
    (transitions : List Transition) : Prop where
  linked : definition.toStateTree.Linked
  legal : Configuration.Legal definition.toStateTree active
  source : ∀ {t}, t ∈ transitions → t.source ∈ active
  target : ∀ {t g}, t ∈ transitions → t.target = some g → g < definition.size
  apart : ∀ {t u n}, t ∈ transitions → u ∈ transitions → n ∈ active →
    definition.Touches t n → definition.Touches u n → t = u

/-- Compatible transitions of which none leads to the root. -/
structure Enclosed (definition : Definition) (active : Configuration)
    (transitions : List Transition) : Prop extends Compatible definition active transitions where
  avoidsRoot : ∀ {t}, t ∈ transitions → t.target ≠ some root

/-- What a step makes of a legal configuration: a legal one in which every target is
active, nothing has changed outside the scopes, and a compound state in a scope that is
not on the way to the target is in its initial child. -/
structure Outcome (definition : Definition) (active : Configuration)
    (transitions : List Transition) (after : Configuration) : Prop where
  legal : Configuration.Legal definition.toStateTree after
  targets : ∀ {t g}, t ∈ transitions → t.target = some g → g ∈ after
  outside : ∀ {n}, (∀ t ∈ transitions, ¬ definition.Touches t n) → (n ∈ after ↔ n ∈ active)
  initial : ∀ {t g n}, t ∈ transitions → t.target = some g → n ∈ after →
    definition.kind n = .compound → definition.InScope t.source g n → ¬ definition.Below g n →
    ∃ c, definition.initial? n = some c ∧ c ∈ after

variable (definition : Definition) (active : Configuration) (transitions : List Transition)

/-- The states that a step exits. -/
def exiting : StateSet :=
  .ofList <| transitions.flatMap fun t => (definition.exitSet active t).toList

/-- The states that stay active without being entered. -/
def retained : StateSet :=
  active.filter fun n => !(definition.exiting active transitions).contains n

/-- The states on the ways to the targets. -/
def pathStates : StateSet := .ofList (transitions.flatMap definition.entryPath)

/-- The states that a step enters. -/
def entering : StateSet :=
  definition.completeEntry (definition.retained active transitions)
    (definition.pathStates transitions) (definition.pathStates transitions).toList.reverse

variable {definition active transitions} {n m p g : Nat} {t u : Transition}

theorem plan_exited :
    (definition.plan active transitions).exited =
      (definition.exiting active transitions).toList.reverse := rfl

theorem plan_entered :
    (definition.plan active transitions).entered =
      (definition.entering active transitions).toList := rfl

theorem plan_configuration :
    (definition.plan active transitions).configuration =
      (definition.retained active transitions).union (definition.entering active transitions) :=
  rfl

theorem mem_exiting :
    n ∈ definition.exiting active transitions ↔
      n ∈ active ∧ ∃ t ∈ transitions, definition.Touches t n := by
  simp only [exiting, StateSet.mem_ofList, List.mem_flatMap, StateSet.mem_toList, mem_exitSet]
  constructor
  · rintro ⟨t, member, isActive, touches⟩
    exact ⟨isActive, t, member, touches⟩
  · rintro ⟨isActive, t, member, touches⟩
    exact ⟨t, member, isActive, touches⟩

theorem mem_retained :
    n ∈ definition.retained active transitions ↔
      n ∈ active ∧ ∀ t ∈ transitions, ¬ definition.Touches t n := by
  simp only [retained, StateSet.mem_filter, Bool.not_eq_true', ← Bool.not_eq_true,
    StateSet.contains_iff, mem_exiting]
  constructor
  · rintro ⟨isActive, notExited⟩
    exact ⟨isActive, fun t member touches => notExited ⟨isActive, t, member, touches⟩⟩
  · rintro ⟨isActive, untouched⟩
    exact ⟨isActive, fun ⟨_, t, member, touches⟩ => untouched t member touches⟩

theorem mem_after :
    n ∈ (definition.plan active transitions).configuration ↔
      n ∈ definition.retained active transitions ∨ n ∈ definition.entering active transitions := by
  rw [plan_configuration, StateSet.mem_union]

/-- Touched, a state is active after the step exactly if it is entered. -/
theorem mem_after_of_touched (member : t ∈ transitions) (touches : definition.Touches t n) :
    n ∈ (definition.plan active transitions).configuration ↔
      n ∈ definition.entering active transitions := by
  rw [mem_after, mem_retained]
  exact ⟨fun isActive => isActive.resolve_left fun kept => kept.2 t member touches, .inr⟩

theorem completed_entering (linked : definition.toStateTree.Linked) :
    definition.Completed (definition.retained active transitions)
      (definition.pathStates transitions) (definition.entering active transitions) :=
  completed_completeEntry linked

theorem Compatible.domain_active (compatible : definition.Compatible active transitions)
    (member : t ∈ transitions) : (definition.scope t.source g).domain ∈ active :=
  compatible.legal.domain_active compatible.linked (compatible.source member)

namespace Enclosed

variable (enclosed : definition.Enclosed active transitions)

include enclosed

/-- A target lies below the domain of its transition. -/
theorem below_domain (member : t ∈ transitions) (isTarget : t.target = some g) :
    definition.Below g (definition.scope t.source g).domain := by
  refine target_below_domain enclosed.linked ⟨enclosed.legal.inTree (enclosed.source member),
    enclosed.target member isTarget, fun isRoot => ?_⟩
  exact enclosed.avoidsRoot member (isRoot ▸ isTarget)

theorem touches_downward (member : t ∈ transitions)
    (touches : definition.Touches t n) (under : definition.Below m n) :
    definition.Touches t m := by
  obtain ⟨g, isTarget, inside⟩ := touches
  have below := enclosed.below_domain member isTarget
  exact ⟨g, isTarget, inside.downward below under⟩

/-- The scopes of compatible transitions are disjoint: if two meet, the active state in
the smaller one lies in both. -/
theorem scopes_disjoint (first : t ∈ transitions) (second : u ∈ transitions)
    (touchesFirst : definition.Touches t n) (touchesSecond : definition.Touches u n) : t = u := by
  obtain ⟨g, isTarget, inside⟩ := touchesFirst
  obtain ⟨g', isTarget', inside'⟩ := touchesSecond
  have below := enclosed.below_domain first isTarget
  have below' := enclosed.below_domain second isTarget'
  rcases inScope_nested below below' inside inside' with nested | nested
  · obtain ⟨m, isActive, inScope⟩ :=
      enclosed.legal.exists_active_inScope enclosed.linked (enclosed.source first) below
    exact enclosed.apart first second isActive ⟨g, isTarget, inScope⟩
      ⟨g', isTarget', nested m inScope⟩
  · obtain ⟨m, isActive, inScope⟩ :=
      enclosed.legal.exists_active_inScope enclosed.linked (enclosed.source second) below'
    exact enclosed.apart first second isActive ⟨g, isTarget, nested m inScope⟩
      ⟨g', isTarget', inScope⟩

/-- The parent of a touched state is touched as well, or it is the domain. -/
theorem touches_parent (member : t ∈ transitions) (isTarget : t.target = some g)
    (inside : definition.InScope t.source g n) (isParent : definition.parent? n = some p) :
    p = (definition.scope t.source g).domain ∨ definition.Touches t p := by
  have below := enclosed.below_domain member isTarget
  exact (inside.parent below isParent).imp_right fun inScope => ⟨g, isTarget, inScope⟩

theorem domain_retained (member : t ∈ transitions) (isTarget : t.target = some g) :
    (definition.scope t.source g).domain ∈ definition.retained active transitions := by
  have below := enclosed.below_domain member isTarget
  refine mem_retained.2 ⟨enclosed.domain_active member,
    fun u other touches => ?_⟩
  have targetTouched := enclosed.touches_downward other touches below
  have same : t = u := enclosed.scopes_disjoint member other
    ⟨g, isTarget, inScope_target below⟩ targetTouched
  subst same
  obtain ⟨g', isTarget', inside⟩ := touches
  obtain rfl := Option.some.inj (isTarget.symm.trans isTarget')
  exact not_inScope_domain below inside

theorem mem_pathStates :
    n ∈ definition.pathStates transitions ↔ ∃ t ∈ transitions, ∃ g, t.target = some g ∧
      definition.Within g n ∧ definition.Below n (definition.scope t.source g).domain := by
  simp only [pathStates, StateSet.mem_ofList, List.mem_flatMap]
  constructor
  · rintro ⟨t, member, onPath⟩
    cases isTarget : t.target with
    | none => simp [entryPath, isTarget] at onPath
    | some g =>
        have below := enclosed.below_domain member isTarget
        exact ⟨t, member, g, isTarget, (mem_entryPath isTarget below).1 onPath⟩
  · rintro ⟨t, member, g, isTarget, onPath⟩
    have below := enclosed.below_domain member isTarget
    exact ⟨t, member, (mem_entryPath isTarget below).2 onPath⟩

/-- A state on the way to a target is touched by the transition that leads there. -/
theorem touches_of_path (member : t ∈ transitions) (isTarget : t.target = some g)
    (within : definition.Within g n)
    (under : definition.Below n (definition.scope t.source g).domain) :
    definition.Touches t n := by
  have below := enclosed.below_domain member isTarget
  exact ⟨g, isTarget, inScope_of_path below within under⟩

/-- Only states in scopes are entered. -/
theorem touched_of_entering (entered : n ∈ definition.entering active transitions) :
    ∃ t ∈ transitions, definition.Touches t n := by
  induction n using Nat.strongRecOn with
  | ind n ih =>
      rcases (completed_entering enclosed.linked).added entered with
        onPath | ⟨m, alsoEntered, brings⟩
      · obtain ⟨t, member, g, isTarget, within, under⟩ :=
          enclosed.mem_pathStates.1 onPath
        exact ⟨t, member,
          enclosed.touches_of_path member isTarget within under⟩
      · have isParent := enclosed.linked.parent_iff.2 (defaultChildren_subset brings.1)
        obtain ⟨t, member, touches⟩ := ih m (definition.parent_lt isParent) alsoEntered
        exact ⟨t, member, enclosed.touches_downward member touches
          (below_of_parent isParent)⟩

theorem target_entering (member : t ∈ transitions) (isTarget : t.target = some g) :
    g ∈ definition.entering active transitions :=
  (completed_entering enclosed.linked).includes <| enclosed.mem_pathStates.2
    ⟨t, member, g, isTarget, .inl rfl,
      enclosed.below_domain member isTarget⟩

/-- The parent of an entered state is entered or retained. -/
theorem parent_of_entering (entered : n ∈ definition.entering active transitions)
    (isParent : definition.parent? n = some p) :
    p ∈ (definition.plan active transitions).configuration := by
  rw [mem_after]
  rcases (completed_entering enclosed.linked).added entered with onPath | ⟨m, alsoEntered, brings⟩
  · obtain ⟨t, member, g, isTarget, within, under⟩ :=
      enclosed.mem_pathStates.1 onPath
    rcases within_parent_of_below isParent under with rfl | parentUnder
    · exact .inl (enclosed.domain_retained member isTarget)
    · refine .inr ((completed_entering enclosed.linked).includes ?_)
      exact enclosed.mem_pathStates.2 ⟨t, member, g, isTarget,
        .inr (within.below (below_of_parent isParent)), parentUnder⟩
  · have alsoParent := enclosed.linked.parent_iff.2 (defaultChildren_subset brings.1)
    obtain rfl := Option.some.inj (alsoParent.symm.trans isParent)
    exact .inr alsoEntered

theorem parent_of_retained (kept : n ∈ definition.retained active transitions)
    (isParent : definition.parent? n = some p) :
    p ∈ definition.retained active transitions := by
  obtain ⟨isActive, untouched⟩ := mem_retained.1 kept
  exact mem_retained.2 ⟨enclosed.legal.parent isActive isParent, fun t member touches =>
    untouched t member (enclosed.touches_downward member touches
      (below_of_parent isParent))⟩

/-- Untouched, a state is active after the step exactly if it was before. -/
theorem mem_after_of_untouched (untouched : ∀ t ∈ transitions, ¬ definition.Touches t n) :
    n ∈ (definition.plan active transitions).configuration ↔ n ∈ active := by
  rw [mem_after, mem_retained]
  constructor
  · rintro (⟨isActive, _⟩ | entered)
    · exact isActive
    · obtain ⟨t, member, touches⟩ := enclosed.touched_of_entering entered
      exact absurd touches (untouched t member)
  · exact fun isActive => .inl ⟨isActive, untouched⟩

/-- The child of a compound domain on the way to the target is entered. -/
theorem exists_path_child (member : t ∈ transitions) (isTarget : t.target = some g)
    (below : definition.Below g n)
    (inside : n = (definition.scope t.source g).domain ∨ definition.Touches t n) :
    ∃ c, definition.parent? c = some n ∧ definition.Within g c ∧
      c ∈ definition.pathStates transitions := by
  obtain ⟨c, isChild, within⟩ := exists_child_toward below
  refine ⟨c, isChild, within, enclosed.mem_pathStates.2 ⟨t, member, g, isTarget, within, ?_⟩⟩
  rcases inside with rfl | ⟨g', isTarget', inScope⟩
  · exact below_of_parent isChild
  · obtain rfl := Option.some.inj (isTarget.symm.trans isTarget')
    exact (below_of_parent isChild).trans
      (inScope.below_domain (enclosed.below_domain member isTarget))

theorem exists_child_of_entering (isCompound : definition.kind n = .compound)
    (isInitial : definition.initial? n = some m)
    (entered : n ∈ definition.entering active transitions) :
    ∃ c ∈ definition.children n, c ∈ (definition.plan active transitions).configuration := by
  by_contra noChild
  refine (completed_entering enclosed.linked).settled entered
    ((mem_missing_of_compound isCompound).2 ⟨isInitial, fun other isChild => ?_⟩)
  have inactive := fun isActive => noChild ⟨other, isChild, mem_after.2 isActive⟩
  exact ⟨fun kept => inactive (.inl kept), fun entered => inactive (.inr entered)⟩

theorem exists_child_of_retained (isCompound : definition.kind n = .compound)
    (kept : n ∈ definition.retained active transitions) :
    ∃ c ∈ definition.children n, c ∈ (definition.plan active transitions).configuration := by
  obtain ⟨isActive, untouched⟩ := mem_retained.1 kept
  obtain ⟨c, isChild, childActive, _⟩ := enclosed.legal.compound isActive isCompound
  by_cases childUntouched : ∀ t ∈ transitions, ¬ definition.Touches t c
  · exact ⟨c, isChild, (enclosed.mem_after_of_untouched childUntouched).2 childActive⟩
  · -- the only active child is exited, so its parent is the domain, and the way in leads on
    push Not at childUntouched
    obtain ⟨t, member, g, isTarget, inside⟩ := childUntouched
    have isDomain := (enclosed.touches_parent member isTarget inside
      (enclosed.linked.parent_iff.2 isChild)).resolve_right (untouched t member)
    obtain ⟨other, isOther, _, onPath⟩ := enclosed.exists_path_child member isTarget
      (isDomain ▸ enclosed.below_domain member isTarget) (.inl isDomain)
    exact ⟨other, enclosed.linked.parent_iff.1 isOther,
      mem_after.2 (.inr ((completed_entering enclosed.linked).includes onPath))⟩

/-- A transition that touches one child of a compound state touches them all. -/
theorem touches_sibling (isCompound : definition.kind n = .compound)
    (isChild : definition.parent? m = some n) (alsoChild : definition.parent? p = some n)
    (member : t ∈ transitions) (touches : definition.Touches t m) : definition.Touches t p := by
  obtain ⟨g, isTarget, inside⟩ := touches
  rcases enclosed.touches_parent member isTarget inside isChild with isDomain | touchesParent
  · rcases inScope_shape (enclosed.below_domain member isTarget) with
      ⟨_, shape⟩ | ⟨isParallel, _⟩
    · exact ⟨g, isTarget, (shape p).2 (isDomain ▸ below_of_parent alsoChild)⟩
    · rw [← isDomain, isCompound] at isParallel
      cases isParallel
  · exact enclosed.touches_downward member touchesParent (below_of_parent alsoChild)

/-- Below a compound state nothing is entered beside a child that is retained. -/
theorem not_entering_beside_retained (isCompound : definition.kind n = .compound)
    (isChild : definition.parent? m = some n) (alsoChild : definition.parent? p = some n)
    (kept : m ∈ definition.retained active transitions)
    (entered : p ∈ definition.entering active transitions) : False := by
  obtain ⟨t, member, touches⟩ := enclosed.touched_of_entering entered
  exact (mem_retained.1 kept).2 t member
    (enclosed.touches_sibling isCompound alsoChild isChild member touches)

/-- Below a compound state the ways to the targets enter one child at most. -/
theorem path_child_unique (isCompound : definition.kind n = .compound)
    (isChild : definition.parent? m = some n) (alsoChild : definition.parent? p = some n)
    (first : m ∈ definition.pathStates transitions)
    (second : p ∈ definition.pathStates transitions) : m = p := by
  obtain ⟨t, member, g, isTarget, within, under⟩ := enclosed.mem_pathStates.1 first
  obtain ⟨u, other, g', isTarget', within', under'⟩ := enclosed.mem_pathStates.1 second
  have touches := enclosed.touches_of_path member isTarget within under
  have touches' := enclosed.touches_of_path other isTarget' within' under'
  obtain rfl := enclosed.scopes_disjoint member other
    (enclosed.touches_sibling isCompound isChild alsoChild member touches) touches'
  obtain rfl := Option.some.inj (isTarget.symm.trans isTarget')
  exact sibling_unique isChild alsoChild within within'

theorem entered_child_unique (isCompound : definition.kind n = .compound)
    (isChild : definition.parent? m = some n) (alsoChild : definition.parent? p = some n)
    (first : m ∈ definition.entering active transitions)
    (second : p ∈ definition.entering active transitions) : m = p := by
  -- a child brought in by default is the only one, and otherwise both lie on ways to targets
  have only : ∀ {c d : Nat}, definition.parent? c = some n → definition.parent? d = some n →
      d ∈ definition.entering active transitions →
      (∃ q ∈ definition.entering active transitions, definition.BringsIn
        (definition.retained active transitions) (definition.entering active transitions) q c) →
      d = c := by
    rintro c d isParent alsoParent entered ⟨q, _, brings⟩
    have isOther := enclosed.linked.parent_iff.2 (defaultChildren_subset brings.1)
    obtain rfl := Option.some.inj (isOther.symm.trans isParent)
    exact brings.2 isCompound d (enclosed.linked.parent_iff.1 alsoParent) (.inr entered)
  have completed : definition.Completed (definition.retained active transitions)
      (definition.pathStates transitions) (definition.entering active transitions) :=
    completed_entering enclosed.linked
  rcases completed.added first with onPath | brought
  · rcases completed.added second with alsoOnPath | brought
    · exact enclosed.path_child_unique isCompound isChild alsoChild onPath alsoOnPath
    · exact only alsoChild isChild first brought
  · exact (only isChild alsoChild second brought).symm

/-- After the step a compound state has one active child at most. -/
theorem active_child_unique (isCompound : definition.kind n = .compound)
    (isChild : definition.parent? m = some n) (alsoChild : definition.parent? p = some n)
    (first : m ∈ (definition.plan active transitions).configuration)
    (second : p ∈ (definition.plan active transitions).configuration) : m = p := by
  rcases mem_after.1 first with firstKept | firstEntered
  · rcases mem_after.1 second with secondKept | secondEntered
    · have childActive := (mem_retained.1 firstKept).1
      exact enclosed.legal.unique_child enclosed.linked (enclosed.legal.parent childActive isChild)
        isCompound isChild alsoChild childActive (mem_retained.1 secondKept).1
    · exact (enclosed.not_entering_beside_retained isCompound isChild alsoChild firstKept
        secondEntered).elim
  · rcases mem_after.1 second with secondKept | secondEntered
    · exact (enclosed.not_entering_beside_retained isCompound alsoChild isChild secondKept
        firstEntered).elim
    · exact enclosed.entered_child_unique isCompound isChild alsoChild firstEntered secondEntered

theorem all_children_active (isParallel : definition.kind n = .parallel)
    (isActive : n ∈ (definition.plan active transitions).configuration)
    (isChild : m ∈ definition.children n) :
    m ∈ (definition.plan active transitions).configuration := by
  rcases mem_after.1 isActive with kept | entered
  · obtain ⟨wasActive, untouched⟩ := mem_retained.1 kept
    have childActive := enclosed.legal.parallel wasActive isParallel m isChild
    by_cases childUntouched : ∀ t ∈ transitions, ¬ definition.Touches t m
    · exact (enclosed.mem_after_of_untouched childUntouched).2 childActive
    · -- the region that is exited is the one that holds the target
      push Not at childUntouched
      obtain ⟨t, member, g, isTarget, inside⟩ := childUntouched
      have isParent := enclosed.linked.parent_iff.2 isChild
      have isDomain := (enclosed.touches_parent member isTarget inside isParent).resolve_right
        (untouched t member)
      have within := (InScope.parallel_domain_child (enclosed.below_domain member isTarget)
        (isDomain ▸ isParallel) (isDomain ▸ isParent)).1 inside
      refine mem_after.2 (.inr ((completed_entering enclosed.linked).includes ?_))
      exact enclosed.mem_pathStates.2
        ⟨t, member, g, isTarget, within, isDomain ▸ below_of_parent isParent⟩
  · have settled := (completed_entering enclosed.linked).settled (c := m) entered
    rw [mem_missing_of_parallel isParallel] at settled
    rw [mem_after]
    by_contra inactive
    push Not at inactive
    exact settled ⟨isChild, inactive⟩

theorem parent_active (isActive : n ∈ (definition.plan active transitions).configuration)
    (isParent : definition.parent? n = some p) :
    p ∈ (definition.plan active transitions).configuration := by
  rcases mem_after.1 isActive with kept | entered
  · exact mem_after.2 (.inl (enclosed.parent_of_retained kept isParent))
  · exact enclosed.parent_of_entering entered isParent

theorem not_touches_root (member : t ∈ transitions) : ¬ definition.Touches t root := by
  rintro ⟨g, isTarget, inside⟩
  exact not_below_root (inside.below_domain (enclosed.below_domain member isTarget))

theorem lt_size_of_entering (entered : n ∈ definition.entering active transitions) :
    n < definition.size := by
  rcases (completed_entering enclosed.linked).added entered with onPath | ⟨m, _, brings⟩
  · obtain ⟨t, member, g, isTarget, same | below, _⟩ := enclosed.mem_pathStates.1 onPath
    · exact same ▸ enclosed.target member isTarget
    · exact Nat.lt_trans below.lt (enclosed.target member isTarget)
  · exact (definition.child_bounds (defaultChildren_subset brings.1)).2

theorem legal_plan (wellFormed : definition.WellFormed) :
    Configuration.Legal definition.toStateTree
      (definition.plan active transitions).configuration where
  root := (enclosed.mem_after_of_untouched fun _ member => enclosed.not_touches_root member).2
    enclosed.legal.root
  inTree isActive := by
    rcases mem_after.1 isActive with kept | entered
    · exact enclosed.legal.inTree (mem_retained.1 kept).1
    · exact enclosed.lt_size_of_entering entered
  parent := enclosed.parent_active
  compound {n} isActive isCompound := by
    obtain ⟨i, isInitial⟩ := wellFormed.initial isCompound
    have hasChild : ∃ c ∈ definition.children n,
        c ∈ (definition.plan active transitions).configuration := by
      rcases mem_after.1 isActive with kept | entered
      · exact enclosed.exists_child_of_retained isCompound kept
      · exact enclosed.exists_child_of_entering isCompound isInitial entered
    obtain ⟨c, isChild, childActive⟩ := hasChild
    refine ⟨c, isChild, childActive, fun other isOther otherActive => ?_⟩
    exact enclosed.active_child_unique isCompound (enclosed.linked.parent_iff.2 isOther)
      (enclosed.linked.parent_iff.2 isChild) otherActive childActive
  parallel isActive isParallel _ isChild :=
    enclosed.all_children_active isParallel isActive isChild

/-- A compound state of a scope that is not on the way to the target is in its initial
child. -/
theorem initial_entered (wellFormed : definition.WellFormed) (member : t ∈ transitions)
    (isTarget : t.target = some g)
    (isActive : n ∈ (definition.plan active transitions).configuration)
    (isCompound : definition.kind n = .compound)
    (inside : definition.InScope t.source g n) (notAbove : ¬ definition.Below g n) :
    ∃ c, definition.initial? n = some c ∧
      c ∈ (definition.plan active transitions).configuration := by
  have touches : definition.Touches t n := ⟨g, isTarget, inside⟩
  obtain ⟨i, isInitial⟩ := wellFormed.initial isCompound
  obtain ⟨c, isChild, childActive⟩ := enclosed.exists_child_of_entering isCompound isInitial
    ((mem_after_of_touched member touches).1 isActive)
  have isParent := enclosed.linked.parent_iff.2 isChild
  have childTouched := enclosed.touches_downward member touches (below_of_parent isParent)
  have entered := (mem_after_of_touched member childTouched).1 childActive
  rcases (completed_entering enclosed.linked).added entered with onPath | ⟨m, _, brings⟩
  · -- the way to a target inside this scope would lead through the compound state
    obtain ⟨u, other, g', isTarget', within, under⟩ := enclosed.mem_pathStates.1 onPath
    obtain rfl := enclosed.scopes_disjoint member other childTouched
      (enclosed.touches_of_path other isTarget' within under)
    obtain rfl := Option.some.inj (isTarget.symm.trans isTarget')
    exact absurd (within.below (below_of_parent isParent)) notAbove
  · have isOther := enclosed.linked.parent_iff.2 (defaultChildren_subset brings.1)
    obtain rfl := Option.some.inj (isOther.symm.trans isParent)
    have isDefault := brings.1
    rw [defaultChildren_of_initial isCompound isInitial, List.mem_singleton] at isDefault
    exact ⟨c, isDefault ▸ isInitial, childActive⟩

theorem outcome_plan (wellFormed : definition.WellFormed) :
    definition.Outcome active transitions (definition.plan active transitions).configuration where
  legal := enclosed.legal_plan wellFormed
  targets member isTarget := mem_after.2 (.inr (enclosed.target_entering member isTarget))
  outside := enclosed.mem_after_of_untouched
  initial := enclosed.initial_entered wellFormed

/-- In a scope every outcome descends the same way: to the target first, then by
default. -/
theorem outcome_subset {after other : Configuration}
    (outcome : definition.Outcome active transitions after)
    (alsoOutcome : definition.Outcome active transitions other) (isActive : n ∈ after) :
    n ∈ other := by
  -- parents stand before their children, so the parent is in both outcomes already
  induction n using Nat.strongRecOn with
  | ind n ih =>
      by_cases untouched : ∀ t ∈ transitions, ¬ definition.Touches t n
      · exact (alsoOutcome.outside untouched).2 ((outcome.outside untouched).1 isActive)
      · push Not at untouched
        obtain ⟨t, member, g, isTarget, inside⟩ := untouched
        have below := enclosed.below_domain member isTarget
        obtain ⟨p, isParent, _⟩ := below_iff.1 (inside.below_domain below)
        have isChild := enclosed.linked.parent_iff.1 isParent
        have parentActive := outcome.legal.parent isActive isParent
        have parentOther := ih p (definition.parent_lt isParent) parentActive
        rcases enclosed.linked.kind_of_below (below_of_parent isParent) with
          isCompound | isParallel
        · by_cases onWay : definition.Below g p
          · obtain ⟨c, alsoChild, within⟩ := exists_child_toward onWay
            have targetActive := outcome.targets member isTarget
            obtain rfl := outcome.legal.unique_child enclosed.linked parentActive isCompound
              isParent alsoChild isActive (outcome.legal.above_within targetActive within)
            exact alsoOutcome.legal.above_within (alsoOutcome.targets member isTarget) within
          · have inScope : definition.InScope t.source g p :=
              (inside.parent below isParent).resolve_left fun isDomain =>
                onWay (isDomain ▸ below)
            obtain ⟨i, isInitial, initialActive⟩ :=
              outcome.initial member isTarget parentActive isCompound inScope onWay
            obtain ⟨j, alsoInitial, initialOther⟩ :=
              alsoOutcome.initial member isTarget parentOther isCompound inScope onWay
            obtain rfl := Option.some.inj (isInitial.symm.trans alsoInitial)
            have initialParent :=
              enclosed.linked.parent_iff.2 (definition.initial_mem_children isInitial)
            obtain rfl := outcome.legal.unique_child enclosed.linked parentActive isCompound
              isParent initialParent isActive initialActive
            exact initialOther
        · exact alsoOutcome.legal.parallel parentOther isParallel n isChild

theorem outcome_unique (wellFormed : definition.WellFormed) {after : Configuration}
    (outcome : definition.Outcome active transitions after) :
    after = (definition.plan active transitions).configuration := by
  have planned := enclosed.outcome_plan wellFormed
  ext n
  exact ⟨enclosed.outcome_subset outcome planned, enclosed.outcome_subset planned outcome⟩

end Enclosed

end Definition

end Statechart
