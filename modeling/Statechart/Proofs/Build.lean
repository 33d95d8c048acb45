import Statechart.Definition.Build
import Statechart.Proofs.Layout

/-!
# Built definitions

A definition that is built has a linked tree, a child to start in for every compound
state, and transitions that start at the state that declares them and lead to a state
of the tree.
-/

namespace Statechart

theorem repeatedIds_eq_nil_iff {seen ids : List String} :
    repeatedIds seen ids = [] ↔ ids.Nodup ∧ ∀ id ∈ ids, id ∉ seen := by
  induction ids generalizing seen with
  | nil => simp [repeatedIds]
  | cons id rest ih =>
      rw [repeatedIds, List.nodup_cons, List.forall_mem_cons]
      split
      · next isSeen => simp [isSeen]
      · next isNew =>
        rw [ih]
        constructor
        · rintro ⟨distinct, apart⟩
          refine ⟨⟨fun again => apart id again (.head _), distinct⟩, isNew, fun other later =>
            fun isSeen => apart other later (.tail _ isSeen)⟩
        · rintro ⟨⟨notAgain, distinct⟩, _, apart⟩
          refine ⟨distinct, fun other later isThere => ?_⟩
          rcases List.mem_cons.1 isThere with rfl | isSeen
          · exact notAgain later
          · exact apart other later isSeen

namespace StateTree

variable {tree : StateTree} {n g : Nat}

theorem descend?_lt {keys : List String} (inTree : n < tree.size)
    (found : tree.descend? n keys = some g) : g < tree.size := by
  induction keys generalizing n with
  | nil =>
      obtain rfl : n = g := by simpa [descend?] using found
      exact inTree
  | cons key rest ih =>
      simp only [descend?, List.foldlM_cons, Option.bind_eq_bind, Option.bind_eq_some_iff] at found
      obtain ⟨c, isChild, found⟩ := found
      exact ih (tree.child_bounds (tree.childByKey?_mem isChild)).2 found

theorem lookup?_lt {id : String} (found : tree.lookup? id = some g) : g < tree.size := by
  have member := List.mem_of_find?_eq_some found
  simpa using member

theorem getElem?_ids (inTree : n < tree.size) :
    (tree.nodes.toList.map (·.id))[n]? = some (tree.node n).id := by
  have entry : tree.nodes[n]? = some tree.nodes[n] := Array.getElem?_eq_getElem inTree
  simp [node, entry]

/-- Distinct ids tell states apart. -/
theorem eq_of_id (distinct : (tree.nodes.toList.map (·.id)).Nodup) (inTree : n < tree.size)
    (alsoInTree : g < tree.size) (same : (tree.node n).id = (tree.node g).id) : n = g := by
  have inside : n < (tree.nodes.toList.map (·.id)).length := by
    rw [List.length_map, Array.length_toList]
    exact inTree
  refine (List.getElem?_inj inside distinct).1 ?_
  rw [getElem?_ids inTree, getElem?_ids alsoInTree, same]

/-- Where ids are distinct, a state is looked up by its id. -/
theorem lookup?_eq_some_iff (distinct : (tree.nodes.toList.map (·.id)).Nodup) {id : String} :
    tree.lookup? id = some n ↔ n < tree.size ∧ (tree.node n).id = id := by
  constructor
  · intro found
    exact ⟨lookup?_lt found, by simpa using List.find?_some found⟩
  · rintro ⟨inTree, rfl⟩
    cases found : tree.lookup? (tree.node n).id with
    | none =>
        have differs := List.find?_eq_none.1 found n (by simpa using inTree)
        simp at differs
    | some m =>
        have same : (tree.node m).id = (tree.node n).id := by simpa using List.find?_some found
        exact congrArg some (eq_of_id distinct (lookup?_lt found) inTree same)

theorem resolve?_lt {text : String} (inTree : n < tree.size)
    (found : tree.resolve? n text = some g) : g < tree.size := by
  unfold resolve? at found
  split at found
  · rw [resolveAbsolute?, Option.or_eq_some_iff] at found
    rcases found with found | ⟨_, found⟩
    · exact lookup?_lt found
    · obtain ⟨⟨front, back⟩, _, found⟩ := List.exists_of_findSome?_eq_some found
      simp only [Option.bind_eq_bind, Option.bind_eq_some_iff] at found
      obtain ⟨base, isBase, found⟩ := found
      exact descend?_lt (lookup?_lt isBase) found
  · exact descend?_lt inTree found
  · refine descend?_lt ?_ found
    cases isParent : tree.parent? n with
    | none => exact inTree
    | some p => exact Nat.lt_trans (tree.parent_lt isParent) inTree

theorem transitionOf?_source {event : String} {spec : TransitionSpec} {t : Transition}
    (found : tree.transitionOf? n event spec = some t) : t.source = n := by
  unfold transitionOf? at found
  split at found
  · cases found; rfl
  · obtain ⟨_, _, rfl⟩ := Option.map_eq_some_iff.1 found
    rfl

theorem transitionOf?_target {event : String} {spec : TransitionSpec} {t : Transition}
    (inTree : n < tree.size) (found : tree.transitionOf? n event spec = some t)
    (isTarget : t.target = some g) : g < tree.size := by
  unfold transitionOf? at found
  split at found
  · cases found
    cases isTarget
  · obtain ⟨target, resolved, rfl⟩ := Option.map_eq_some_iff.1 found
    obtain rfl : target = g := Option.some.inj isTarget
    exact resolve?_lt inTree resolved

theorem delayedOf?_eq {spec : DelayedSpec} {delayed : DelayedTransition}
    (found : tree.delayedOf? n spec = some delayed) :
    ∃ target, tree.resolve? n spec.target = some target ∧
      delayed.transition.source = n ∧ delayed.transition.target = some target := by
  unfold delayedOf? at found
  split at found
  · cases found
  · obtain ⟨target, resolved, rfl⟩ := Option.map_eq_some_iff.1 found
    exact ⟨target, resolved, rfl, rfl⟩

section Errors

variable {spec : StateSpec}

theorem initialErrors_eq_nil_iff :
    tree.initialErrors n spec = [] ↔
      (tree.isLeaf n = false → tree.children n ≠ []) ∧
      (tree.kind n = .compound →
        ∃ key, spec.initial = some key ∧ (tree.childByKey? n key).isSome = true) ∧
      (tree.kind n ≠ .compound → spec.initial = none) := by
  rw [isLeaf_eq, initialErrors]
  cases kind : tree.kind n with
  | compound =>
      cases tree.children n <;> cases spec.initial <;>
        simp [StateKind.isLeaf, Option.isSome_iff_ne_none]
  | parallel => cases tree.children n <;> simp [StateKind.isLeaf]
  | atomic | final => simp [StateKind.isLeaf]

theorem transitionErrors_eq_nil_iff {event : String} {candidate : TransitionSpec} :
    tree.transitionErrors n event candidate = [] ↔
      ∀ target, candidate.target = some target → (tree.resolve? n target).isSome = true := by
  cases declared : candidate.target <;>
    simp [transitionErrors, declared, Option.isSome_iff_ne_none]

theorem delayedErrors_eq_nil_iff {delayed : DelayedSpec} :
    tree.delayedErrors n delayed = [] ↔
      delayed.millis ≠ 0 ∧ (tree.resolve? n delayed.target).isSome = true := by
  by_cases isZero : delayed.millis = 0 <;>
    simp [delayedErrors, isZero, Option.isSome_iff_ne_none]

/-- Nothing is wrong with what a state does if its initial child is declared as it should be and
its targets and delays are right. -/
theorem behaviourErrors_eq_nil_iff :
    tree.behaviourErrors n spec = [] ↔ tree.initialErrors n spec = [] ∧
      (∀ entry ∈ spec.on, ∀ candidate ∈ entry.2, ∀ target,
        candidate.target = some target → (tree.resolve? n target).isSome = true) ∧
      ∀ delayed ∈ spec.after,
        delayed.millis ≠ 0 ∧ (tree.resolve? n delayed.target).isSome = true := by
  simp only [behaviourErrors, List.append_eq_nil_iff, List.flatMap_eq_nil_iff,
    transitionErrors_eq_nil_iff, delayedErrors_eq_nil_iff, and_assoc]

/-- The initial child is the one that is declared, if nothing is wrong with it. -/
theorem initialOf?_related (noErrors : tree.initialErrors n spec = []) :
    Option.Rel (fun c key => c ∈ tree.children n ∧ (tree.node c).key = key)
      (tree.initialOf? n spec) spec.initial := by
  obtain ⟨_, initial, unexpected⟩ := initialErrors_eq_nil_iff.1 noErrors
  by_cases isCompound : tree.kind n = .compound
  · obtain ⟨key, declared, found⟩ := initial isCompound
    obtain ⟨c, isChild⟩ := Option.isSome_iff_exists.1 found
    have isInitial : tree.initialOf? n spec = some c := by
      simp [initialOf?, isCompound, declared, isChild]
    rw [isInitial, declared]
    exact .some ⟨tree.childByKey?_mem isChild, by simpa using List.find?_some isChild⟩
  · have noInitial : tree.initialOf? n spec = none := by
      cases kind : tree.kind n <;> simp [initialOf?, kind] at isCompound ⊢
    rw [noInitial, unexpected isCompound]
    exact .none

/-- A compound state whose declaration has no error starts in one of its children. -/
theorem exists_initial_of_no_errors (isCompound : tree.kind n = .compound)
    (noErrors : tree.initialErrors n spec = []) : ∃ c, tree.initialOf? n spec = some c := by
  obtain ⟨key, declared, _⟩ := (initialErrors_eq_nil_iff.1 noErrors).2.1 isCompound
  have related := initialOf?_related noErrors
  rw [declared] at related
  cases found : tree.initialOf? n spec with
  | none => simp [found] at related
  | some c => exact ⟨c, rfl⟩

theorem children_ne_nil_of_no_errors (isParallel : tree.kind n = .parallel)
    (noErrors : tree.initialErrors n spec = []) : tree.children n ≠ [] :=
  (initialErrors_eq_nil_iff.1 noErrors).1 (by rw [isLeaf_eq, isParallel]; rfl)

end Errors

theorem lt_size_of_not_leaf (composite : tree.isLeaf n = false) : n < tree.size := by
  apply Nat.lt_of_not_le
  intro outside
  simp [isLeaf, node_of_size_le outside, default, StateNode.isLeaf, StateKind.isLeaf] at composite

end StateTree

namespace Definition

/-- What building guarantees about the states and transitions of a definition. -/
structure WellFormed (definition : Definition) : Prop where
  linked : definition.toStateTree.Linked
  initial : ∀ {n : Nat}, definition.kind n = .compound → ∃ c, definition.initial? n = some c
  regions : ∀ {n : Nat}, definition.kind n = .parallel → definition.children n ≠ []
  source : ∀ {n : Nat} {t : Transition}, t ∈ definition.transitions n → t.source = n
  target : ∀ {n : Nat} {t : Transition} {g : Nat}, t ∈ definition.transitions n →
    t.target = some g → g < definition.size

end Definition

namespace MachineSpec

open Layout

variable {machine : MachineSpec} {definition : Definition}

theorem build_eq_ok_iff :
    machine.build = .ok definition ↔ machine.problems = [] ∧ machine.resolved = definition := by
  unfold build
  cases machine.problems with
  | nil => simp [DefinitionError.collect, bind, Except.bind, pure, Except.pure]
  | cons first rest =>
      cases rest <;> simp [DefinitionError.collect, bind, Except.bind]

theorem behaviour_resolved {n : Nat} {state : PlacedState}
    (stands : At 0 (Layout.ofMachine machine) n state) :
    machine.resolved.behaviour n = (StateTree.ofMachine machine).behaviourOf n state.spec := by
  obtain ⟨i, rfl, entry⟩ := stands
  simp [Definition.behaviour, resolved, declarations, entry]

theorem behaviour_resolved_of_size_le {n : Nat}
    (outside : (StateTree.ofMachine machine).size ≤ n) :
    machine.resolved.behaviour n = default := by
  rw [StateTree.size_ofMachine] at outside
  simp [Definition.behaviour, resolved, declarations, List.getElem?_eq_none outside]

/-- Nothing is wrong with a machine if it is named, if the shape of its tree is right, if no id
is repeated, and if nothing is wrong with what its states do. -/
theorem problems_eq_nil_iff :
    machine.problems = [] ↔ machine.id ≠ "" ∧ Layout.errors machine.id machine.root = [] ∧
      repeatedIds [] ((StateTree.ofMachine machine).nodes.toList.map (·.id)) = [] ∧
      ∀ n state, At 0 (Layout.ofMachine machine) n state →
        (StateTree.ofMachine machine).behaviourErrors n state.spec = [] := by
  simp only [problems, List.append_eq_nil_iff, List.flatMap_eq_nil_iff, List.map_eq_nil_iff,
    ite_eq_right_iff, List.cons_ne_nil, imp_false, String.isEmpty_iff, and_assoc, ne_eq]
  refine and_congr_right fun _ => and_congr_right fun _ => and_congr_right fun _ => ⟨?_, ?_⟩
  · rintro noErrors n state ⟨i, rfl, entry⟩
    apply noErrors (state.spec, 0 + i)
    simp [List.mem_zipIdx_iff_getElem?, declarations, entry]
  · rintro noErrors ⟨spec, n⟩ member
    simp only [List.mem_zipIdx_iff_getElem?, declarations, List.getElem?_map,
      Option.map_eq_some_iff] at member
    obtain ⟨state, entry, rfl⟩ := member
    exact noErrors n state ⟨n, (Nat.zero_add n).symm, entry⟩

theorem behaviourErrors_eq_nil (noProblems : machine.problems = []) {n : Nat}
    {state : PlacedState} (stands : At 0 (Layout.ofMachine machine) n state) :
    (StateTree.ofMachine machine).behaviourErrors n state.spec = [] :=
  (problems_eq_nil_iff.1 noProblems).2.2.2 n state stands

/-- Every state of a machine does what was declared for it, and nothing in that is wrong. -/
theorem exists_declaration (noProblems : machine.problems = []) {n : Nat}
    (inTree : n < machine.resolved.size) :
    ∃ spec, machine.resolved.behaviour n = (StateTree.ofMachine machine).behaviourOf n spec ∧
      (StateTree.ofMachine machine).initialErrors n spec = [] := by
  obtain ⟨state, stands⟩ := StateTree.exists_at inTree
  have noErrors := behaviourErrors_eq_nil noProblems stands
  simp only [StateTree.behaviourErrors, List.append_eq_nil_iff] at noErrors
  exact ⟨state.spec, behaviour_resolved stands, noErrors.1.1⟩

theorem transition_resolved (noProblems : machine.problems = []) {n : Nat} {t : Transition}
    (declared : t ∈ machine.resolved.transitions n) :
    t.source = n ∧ ∀ g, t.target = some g → g < machine.resolved.size := by
  rcases Nat.lt_or_ge n machine.resolved.size with inTree | outside
  · obtain ⟨spec, behaves, _⟩ := exists_declaration noProblems inTree
    simp only [Definition.transitions, behaves, StateTree.behaviourOf, List.mem_append,
      List.mem_flatMap, List.mem_map, List.mem_filterMap] at declared
    rcases declared with ⟨_, ⟨entry, _, rfl⟩, isCandidate⟩ |
      ⟨delayed, ⟨declaration, _, found⟩, rfl⟩
    · obtain ⟨candidate, _, found⟩ := List.mem_filterMap.1 isCandidate
      exact ⟨StateTree.transitionOf?_source found,
        fun g isTarget => StateTree.transitionOf?_target inTree found isTarget⟩
    · obtain ⟨target, resolves, source, isTarget⟩ := StateTree.delayedOf?_eq found
      refine ⟨source, fun g sameTarget => ?_⟩
      obtain rfl := Option.some.inj (isTarget.symm.trans sameTarget)
      exact StateTree.resolve?_lt inTree resolves
  · simp [Definition.transitions, behaviour_resolved_of_size_le outside, default] at declared

theorem wellFormed_resolved (noProblems : machine.problems = []) :
    machine.resolved.WellFormed where
  linked := StateTree.linked_ofMachine machine
  initial {n} isCompound := by
    have inTree := StateTree.lt_size_of_not_leaf (congrArg StateKind.isLeaf isCompound)
    obtain ⟨spec, behaves, noErrors⟩ := exists_declaration noProblems inTree
    obtain ⟨c, found⟩ := StateTree.exists_initial_of_no_errors isCompound noErrors
    refine ⟨c, ?_⟩
    rw [Definition.initial?, behaves]
    exact found
  regions {n} isParallel := by
    have inTree := StateTree.lt_size_of_not_leaf (congrArg StateKind.isLeaf isParallel)
    obtain ⟨spec, _, noErrors⟩ := exists_declaration noProblems inTree
    exact StateTree.children_ne_nil_of_no_errors isParallel noErrors
  source declared := (transition_resolved noProblems declared).1
  target declared := (transition_resolved noProblems declared).2 _

theorem wellFormed_of_build (built : machine.build = .ok definition) : definition.WellFormed := by
  obtain ⟨noProblems, rfl⟩ := build_eq_ok_iff.1 built
  exact wellFormed_resolved noProblems

/-- A studio with light and sound, which are on together and change apart. -/
def studio : MachineSpec :=
  (named "studio").startingIn "off" |>.onEntry "boot"
    |>.child "off" (StateSpec.atomic.candidate "power" (.leadingTo "on")
      |>.candidate "reset" (.leadingTo "#studio"))
    |>.child "on" (StateSpec.parallel.onEntry "warm"
      |>.child "light" (StateSpec.compound "dim"
        |>.child "dim" (StateSpec.atomic.candidate "party" (.leadingTo "#studio.on.sound.loud"))
        |>.child "bright" StateSpec.atomic)
      |>.child "sound" (StateSpec.compound "mute"
        |>.child "mute" StateSpec.atomic
        |>.child "loud" StateSpec.atomic))

theorem studio_built : studio.build = .ok studio.resolved :=
  build_eq_ok_iff.2 ⟨by decide +kernel, rfl⟩

/-- A hall whose door falls shut by itself and whose light goes out by itself. -/
def hall : MachineSpec :=
  (named "hall").parallel
    |>.child "door" (StateSpec.compound "shut"
      |>.child "shut" (StateSpec.atomic.candidate "open"
        ((TransitionSpec.leadingTo "open").action "ring"))
      |>.child "open" (StateSpec.atomic.delayed { millis := 50, target := "shut" }))
    |>.child "light" (StateSpec.compound "off"
      |>.child "off" (StateSpec.atomic.candidate "motion" (.leadingTo "on"))
      |>.child "on" (StateSpec.atomic.delayed { millis := 30, target := "off" }))

theorem hall_built : hall.build = .ok hall.resolved :=
  build_eq_ok_iff.2 ⟨by decide +kernel, rfl⟩

/-- A telephone booth in which calls are paid for when they are answered. -/
def booth : MachineSpec :=
  (named "booth").startingIn "idle"
    |>.child "idle" ((StateSpec.atomic.onEntry "greet"
        |>.candidate "call" ((TransitionSpec.leadingTo "talking").action "dial"))
      |>.candidate "close" (.leadingTo "closed"))
    |>.child "talking" (StateSpec.atomic.candidate "answer"
      ((TransitionSpec.leadingTo "idle").action "pay"))
    |>.child "closed" StateSpec.final

theorem booth_built : booth.build = .ok booth.resolved :=
  build_eq_ok_iff.2 ⟨by decide +kernel, rfl⟩

end MachineSpec

end Statechart
