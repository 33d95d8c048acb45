import Mathlib.Data.List.Basic
import Statechart.Proofs.Handlers

/-!
# Other delays

How long the delays of a specification are makes no difference to its tree, to what an event
does, or to whether it can be built, as long as no delay is zero.
-/

namespace Statechart

mutual
/-- The specification with all delays of the same length. -/
def StateSpec.retimed (millis : UInt64) : StateSpec → StateSpec
  | ⟨id, kind, initial, entry, exit, on, after, states⟩ =>
    ⟨id, kind, initial, entry, exit, on, after.map fun delayed => { delayed with millis },
      StateSpec.retimedStates millis states⟩

def StateSpec.retimedStates (millis : UInt64) :
    List (String × StateSpec) → List (String × StateSpec)
  | [] => []
  | child :: rest => (child.1, child.2.retimed millis) :: StateSpec.retimedStates millis rest
end

def MachineSpec.retimed (machine : MachineSpec) (millis : UInt64) : MachineSpec :=
  { machine with root := machine.root.retimed millis }

namespace StateSpec

variable {millis : UInt64} {spec : StateSpec}

theorem isEmpty_retimedStates {states : List (String × StateSpec)} :
    (retimedStates millis states).isEmpty = states.isEmpty := by
  cases states <;> rfl

variable (millis spec)

theorem resolvedKind_retimed : (spec.retimed millis).resolvedKind = spec.resolvedKind := by
  cases spec
  simp [retimed, resolvedKind, isEmpty_retimedStates]

@[simp]
theorem retimed_ofKind (kind : StateKind) : (ofKind kind).retimed millis = ofKind kind := rfl

@[simp]
theorem retimed_compound (initial : String) :
    (compound initial).retimed millis = compound initial := rfl

@[simp]
theorem retimed_startingIn (key : String) :
    (spec.startingIn key).retimed millis = (spec.retimed millis).startingIn key := by
  cases spec
  rfl

@[simp]
theorem retimed_onEntry (action : String) :
    (spec.onEntry action).retimed millis = (spec.retimed millis).onEntry action := by
  cases spec
  rfl

@[simp]
theorem retimed_candidate (event : String) (transition : TransitionSpec) :
    (spec.candidate event transition).retimed millis =
      (spec.retimed millis).candidate event transition := by
  cases spec
  rfl

@[simp]
theorem retimed_delayed (delayed : DelayedSpec) :
    (spec.delayed delayed).retimed millis =
      (spec.retimed millis).delayed { delayed with millis } := by
  cases spec
  simp [StateSpec.delayed, retimed]

theorem retimedStates_put (key : String) (child : StateSpec)
    (states : List (String × StateSpec)) :
    retimedStates millis (Keyed.put key child states) =
      Keyed.put key (child.retimed millis) (retimedStates millis states) := by
  induction states with
  | nil => rfl
  | cons entry rest ih =>
      simp only [Keyed.put, retimedStates]
      split <;> simp [retimedStates, ih]

@[simp]
theorem retimed_child (key : String) (child : StateSpec) :
    (spec.child key child).retimed millis =
      (spec.retimed millis).child key (child.retimed millis) := by
  cases spec
  simp [StateSpec.child, retimed, retimedStates_put]

end StateSpec

/-- A placed state with other delays. -/
def PlacedState.retimed (millis : UInt64) (placed : PlacedState) : PlacedState :=
  ⟨placed.node, placed.spec.retimed millis⟩

namespace Layout

variable {millis : UInt64}

theorem blockStarts_retimed {start : Nat} {blocks : List (List PlacedState)} :
    blockStarts start (blocks.map (List.map (PlacedState.retimed millis))) =
      blockStarts start blocks := by
  induction blocks generalizing start with
  | nil => rfl
  | cons block rest ih => simp [blockStarts, ih]

mutual
theorem block_retimed (key id : String) (parent : Option Nat) (depth start : Nat) :
    (spec : StateSpec) → block key id parent depth start (spec.retimed millis) =
      (block key id parent depth start spec).map (PlacedState.retimed millis)
  | ⟨explicit, kind, initial, entry, exit, on, after, states⟩ => by
      have sameKind := StateSpec.resolvedKind_retimed millis
        ⟨explicit, kind, initial, entry, exit, on, after, states⟩
      have below := blocksOf_retimed (explicit.getD id) start depth (start + 1) states
      rw [StateSpec.retimed] at sameKind ⊢
      rw [block, block, sameKind, List.map_cons]
      split
      · simp [PlacedState.retimed, StateSpec.retimed, blockStarts]
      · rw [below, blockStarts_retimed, List.map_flatten]
        rfl

theorem blocksOf_retimed (parentId : String) (parent depth start : Nat) :
    (states : List (String × StateSpec)) →
      blocksOf parentId parent depth start (StateSpec.retimedStates millis states) =
        (blocksOf parentId parent depth start states).map (List.map (PlacedState.retimed millis))
  | [] => by rw [StateSpec.retimedStates, blocksOf]; rfl
  | child :: rest => by
      rw [StateSpec.retimedStates, blocksOf, blocksOf]
      split
      · dsimp only
        rw [List.map_cons, block_retimed, List.length_map, blocksOf_retimed]
      · exact blocksOf_retimed parentId parent depth start rest
end

mutual
theorem errors_retimed (id : String) :
    (spec : StateSpec) → errors id (spec.retimed millis) = errors id spec
  | ⟨explicit, kind, initial, entry, exit, on, after, states⟩ => by
      have sameKind := StateSpec.resolvedKind_retimed millis
        ⟨explicit, kind, initial, entry, exit, on, after, states⟩
      have below := errorsBelow_retimed (explicit.getD id) states
      rw [StateSpec.retimed] at sameKind ⊢
      rw [errors, errors, sameKind, StateSpec.isEmpty_retimedStates, below]

theorem errorsBelow_retimed (parentId : String) :
    (states : List (String × StateSpec)) →
      errorsBelow parentId (StateSpec.retimedStates millis states) = errorsBelow parentId states
  | [] => by rw [StateSpec.retimedStates]
  | child :: rest => by
      rw [StateSpec.retimedStates, errorsBelow, errorsBelow, errors_retimed, errorsBelow_retimed]
end

theorem ofMachine_retimed (machine : MachineSpec) :
    ofMachine (machine.retimed millis) = (ofMachine machine).map (PlacedState.retimed millis) :=
  block_retimed machine.id machine.id none 0 0 machine.root

end Layout

theorem StateTree.ofMachine_retimed (machine : MachineSpec) (millis : UInt64) :
    StateTree.ofMachine (machine.retimed millis) = StateTree.ofMachine machine := by
  simp [StateTree.ofMachine, Layout.ofMachine_retimed, PlacedState.retimed, Function.comp_def]

namespace StateTree

variable {tree : StateTree} {n : Nat} {spec : StateSpec} {millis : UInt64}

theorem behaviourOf_retimed : tree.behaviourOf n (spec.retimed millis) =
    { tree.behaviourOf n spec with
      after := (spec.after.map fun delayed => { delayed with millis }).filterMap
        (tree.delayedOf? n) } := by
  cases spec
  rfl

theorem behaviourErrors_retimed (positive : millis ≠ 0)
    (noErrors : tree.behaviourErrors n spec = []) :
    tree.behaviourErrors n (spec.retimed millis) = [] := by
  cases spec
  rw [behaviourErrors_eq_nil_iff] at noErrors ⊢
  obtain ⟨initial, transitions, delays⟩ := noErrors
  refine ⟨initial, transitions, fun delayed member => ?_⟩
  obtain ⟨original, isDeclared, rfl⟩ := List.mem_map.1 member
  exact ⟨positive, (delays original isDeclared).2⟩

end StateTree

/-- Two definitions differ in their delayed transitions and their contexts at most. -/
structure Definition.Retimes (a b : Definition) : Prop where
  tree : a.toStateTree = b.toStateTree
  initial : ∀ n, (a.behaviour n).initial = (b.behaviour n).initial
  entry : ∀ n, (a.behaviour n).entry = (b.behaviour n).entry
  exit : ∀ n, (a.behaviour n).exit = (b.behaviour n).exit
  on : ∀ n, (a.behaviour n).on = (b.behaviour n).on

namespace MachineSpec

variable {machine : MachineSpec} {millis : UInt64}

theorem getElem?_declarations_retimed (n : Nat) :
    (machine.retimed millis).declarations[n]? =
      machine.declarations[n]?.map (StateSpec.retimed millis) := by
  simp [declarations, Layout.ofMachine_retimed, PlacedState.retimed, Function.comp_def]

theorem behaviour_resolved_eq (n : Nat) : machine.resolved.behaviour n =
    (machine.declarations[n]?.map ((StateTree.ofMachine machine).behaviourOf n)).getD default := by
  simp [Definition.behaviour, resolved]

theorem retimes_resolved : (machine.retimed millis).resolved.Retimes machine.resolved := by
  have same : ∀ n, (machine.retimed millis).resolved.behaviour n =
      (machine.declarations[n]?.map fun spec =>
        (StateTree.ofMachine machine).behaviourOf n (spec.retimed millis)).getD default := by
    intro n
    rw [behaviour_resolved_eq, StateTree.ofMachine_retimed, getElem?_declarations_retimed,
      Option.map_map]
    rfl
  refine ⟨StateTree.ofMachine_retimed machine millis, ?_, ?_, ?_, ?_⟩ <;> intro n <;>
    rw [same, behaviour_resolved_eq] <;> cases machine.declarations[n]? <;>
      simp [StateTree.behaviourOf_retimed]

/-- What is taken after a delay is what the machine declares, whatever the delay. -/
theorem exists_declared_of_retimed {n : Nat} {delayed : DelayedTransition}
    (isDelayed : delayed ∈ ((machine.retimed millis).resolved.behaviour n).after) :
    ∃ spec declaration target, machine.declarations[n]? = some spec ∧ declaration ∈ spec.after ∧
      (StateTree.ofMachine machine).resolve? n declaration.target = some target ∧
      delayed.transition =
        ⟨(StateTree.ofMachine machine).delayedEvent n { declaration with millis }, n, some target,
          none, declaration.actions⟩ := by
  rw [behaviour_resolved_eq, StateTree.ofMachine_retimed, getElem?_declarations_retimed]
    at isDelayed
  cases declared : machine.declarations[n]? with
  | none => simp [declared, default] at isDelayed
  | some spec =>
      simp only [declared, Option.map_some, Option.getD_some, StateTree.behaviourOf_retimed,
        List.mem_filterMap, List.mem_map] at isDelayed
      obtain ⟨_, ⟨declaration, isDeclared, rfl⟩, found⟩ := isDelayed
      unfold StateTree.delayedOf? at found
      split at found
      · cases found
      · obtain ⟨target, resolves, rfl⟩ := Option.map_eq_some_iff.1 found
        exact ⟨spec, declaration, target, rfl, isDeclared, resolves, rfl⟩

variable (machine millis)

@[simp]
theorem retimed_named (id : String) : (named id).retimed millis = named id := rfl

@[simp]
theorem retimed_withContext (context : Context) :
    (machine.withContext context).retimed millis = (machine.retimed millis).withContext context :=
  rfl

@[simp]
theorem retimed_startingIn (key : String) :
    (machine.startingIn key).retimed millis = (machine.retimed millis).startingIn key := by
  simp [startingIn, retimed]

@[simp]
theorem retimed_child (key : String) (child : StateSpec) :
    (machine.child key child).retimed millis =
      (machine.retimed millis).child key (child.retimed millis) := by
  simp [MachineSpec.child, retimed]

variable {machine millis}

/-- A machine can be built with other delays than zero if it can be built. -/
theorem problems_retimed (positive : millis ≠ 0) (noProblems : machine.problems = []) :
    (machine.retimed millis).problems = [] := by
  rw [problems_eq_nil_iff] at noProblems ⊢
  obtain ⟨named, shaped, distinct, noErrors⟩ := noProblems
  rw [StateTree.ofMachine_retimed]
  refine ⟨named, (Layout.errors_retimed _ _).trans shaped, distinct, fun n state stands => ?_⟩
  obtain ⟨i, isPlace, entry⟩ := stands
  rw [Layout.ofMachine_retimed, List.getElem?_map, Option.map_eq_some_iff] at entry
  obtain ⟨original, isOriginal, rfl⟩ := entry
  exact StateTree.behaviourErrors_retimed positive (noErrors n original ⟨i, isPlace, isOriginal⟩)

end MachineSpec

namespace Definition.Retimes

variable {a b : Definition} {active : Configuration}

theorem select_eq (same : a.Retimes b) (guards : String → Option Guard) (context : Context)
    (event : String) :
    a.select guards active context event = b.select guards active context event := by
  have sameOn := same.on
  have sameTree := same.tree
  have sameCandidate : ∀ n, a.candidateOf? guards context event n =
      b.candidateOf? guards context event n := by
    intro n
    simp only [candidateOf?, candidates?, sameOn]
  obtain ⟨tree, behaviours, initialContext, initialChild⟩ := a
  obtain ⟨tree', behaviours', initialContext', initialChild'⟩ := b
  obtain rfl : tree = tree' := sameTree
  have sameChoice :
      chosenBy? ⟨tree, behaviours, initialContext, initialChild⟩ guards context event =
        chosenBy? ⟨tree, behaviours', initialContext', initialChild'⟩ guards context event := by
    funext leaf
    simp only [chosenBy?]
    rw [funext sameCandidate]
  simp only [select, enabled, sameChoice]
  rfl

theorem missing_eq (same : a.Retimes b) (retained entering : StateSet) (n : Nat) :
    a.missing retained entering n = b.missing retained entering n := by
  simp only [missing, same.tree, initial?, same.initial]

theorem completeEntry_eq (same : a.Retimes b) (retained entering : StateSet) (pending : List Nat) :
    a.completeEntry retained entering pending = b.completeEntry retained entering pending := by
  fun_induction a.completeEntry retained entering pending with
  | case1 => rw [completeEntry]
  | case2 entering n rest lacking ih =>
      rw [ih, completeEntry.eq_2 b, ← same.missing_eq]

theorem plan_eq (same : a.Retimes b) (active : Configuration) (transitions : List Transition) :
    a.plan active transitions = b.plan active transitions := by
  simp only [plan, same.tree, same.entry, same.exit, same.completeEntry_eq]

theorem defaultEntry_eq (same : a.Retimes b) (n : Nat) : a.defaultEntry n = b.defaultEntry n := by
  have sameInitial : ∀ n, a.initial? n = b.initial? n := same.initial
  have sameChildren : ∀ n, a.defaultChildren n = b.defaultChildren n := fun n => by
    simp only [defaultChildren, same.tree, sameInitial]
  induction n using a.toStateTree.induction_down with
  | step n ih =>
      have unfolds : b.defaultEntry n = n :: (b.defaultChildren n).flatMap b.defaultEntry :=
        Definition.defaultEntry_eq n
      rw [Definition.defaultEntry_eq, unfolds, ← sameChildren,
        List.flatMap_congr fun c isDefault => ih c (defaultChildren_subset isDefault)]

theorem initialPlan_eq (same : a.Retimes b) : a.initialPlan = b.initialPlan := by
  simp only [initialPlan, initialConfiguration, same.entry, same.defaultEntry_eq]

end Definition.Retimes

end Statechart
