import Statechart.Proofs.Build
import Statechart.Proofs.Value
import Mathlib

/-!
# Configurations and values determine each other

Read as a configuration, the value of a legal configuration gives that configuration
back; and the configuration that an accepted value describes has that value. So the
values that are rejected are exactly those of no legal configuration.
-/

namespace Statechart

theorem StateValue.regionsOrdered_iff {regions : List (String × StateValue)} :
    StateValue.RegionsOrdered regions ↔ ∀ region ∈ regions, region.2.Ordered := by
  induction regions with
  | nil => simp [RegionsOrdered]
  | cons region rest ih => simp [RegionsOrdered, ih]

namespace Configuration

open StateTree StateValue

variable {tree : StateTree} {active : Configuration} {n m c : Nat} {value : StateValue}
variable {states : List Nat}

/-- The active child of a compound state is found. -/
theorem find_active_child (isChild : c ∈ tree.children n) (isActive : c ∈ active)
    (unique : ∀ other ∈ tree.children n, other ∈ active → other = c) :
    (tree.children n).find? active.contains = some c := by
  cases found : (tree.children n).find? active.contains with
  | none => exact absurd (StateSet.contains_iff.2 isActive) (List.find?_eq_none.1 found c isChild)
  | some other =>
      have otherActive := StateSet.contains_iff.1 (List.find?_some found)
      exact congrArg some (unique other (List.mem_of_find?_eq_some found) otherActive)

/-- What is active below a state is an active child, or is active below one. -/
theorem Legal.below_iff (legal : Legal tree active) (linked : tree.Linked) :
    m ∈ active ∧ tree.Below m n ↔
      ∃ c ∈ tree.children n, c ∈ active ∧ (m = c ∨ m ∈ active ∧ tree.Below m c) := by
  constructor
  · rintro ⟨isActive, below⟩
    obtain ⟨c, isParent, within⟩ := exists_child_toward below
    exact ⟨c, linked.parent_iff.1 isParent, legal.above_within isActive within,
      within.imp_right fun under => ⟨isActive, under⟩⟩
  · rintro ⟨c, isChild, childActive, rfl | ⟨isActive, under⟩⟩
    · exact ⟨childActive, linked.child_below isChild⟩
    · exact ⟨isActive, under.trans (linked.child_below isChild)⟩

theorem not_below_leaf (linked : tree.Linked) (isLeaf : tree.isLeaf n = true) :
    ¬ tree.Below m n := by
  intro below
  obtain ⟨c, isParent, _⟩ := exists_child_toward below
  cases (linked.not_leaf_of_parent isParent).symm.trans isLeaf

theorem nodup_keys (linked : tree.Linked) (discrete : tree.Discrete)
    (value : Nat → StateValue) :
    (((tree.children n).map fun c => ((tree.node c).key, value c)).map (·.1)).Nodup := by
  rw [List.map_map]
  refine (List.pairwise_map).2 ((linked.nodup_children n).imp_of_mem ?_)
  intro c d isChild alsoChild different same
  exact different (discrete isChild alsoChild same)

/-- A region that is described covers its child. -/
theorem covers_of_mem {regions : List (String × StateValue)} {inner : StateValue}
    (member : ((tree.node c).key, inner) ∈ regions) (increasing : Keyed.Increasing regions)
    (described : ∃ states, statesBelow tree c inner = .ok states ∧
      ∀ m, m ∈ states ↔ m ∈ active ∧ tree.Below m c) :
    Covers tree regions c ∧ ∀ m, m ∈ regionBelow tree regions c ↔ m ∈ active ∧ tree.Below m c := by
  obtain ⟨states, isBelow, mem_iff⟩ := described
  have found := Keyed.lookup_of_mem increasing member
  have same : regionBelow tree regions c = states := by
    simp [regionBelow, found, isBelow, Except.toOption]
  exact ⟨⟨inner, found, same ▸ isBelow⟩, same ▸ mem_iff⟩

/-- The value of what is active below a state describes it. -/
theorem statesBelow_regionValue (linked : tree.Linked) (discrete : tree.Discrete)
    (legal : Legal tree active) (isActive : n ∈ active) :
    ∃ states, statesBelow tree n (regionValue tree active n) = .ok states ∧
      ∀ m, m ∈ states ↔ m ∈ active ∧ tree.Below m n := by
  induction n using tree.induction_down with
  | step n ih =>
      cases kind : tree.kind n with
      | compound =>
          obtain ⟨c, isChild, childActive, unique⟩ := legal.compound isActive kind
          have found := find_active_child isChild childActive unique
          have isKey := childByKey?_of_discrete discrete isChild
          obtain ⟨below, described, below_iff⟩ := ih c isChild childActive
          have inside : ∀ m, m ∈ active ∧ tree.Below m n ↔ m = c ∨ m ∈ active ∧ tree.Below m c := by
            intro m
            rw [legal.below_iff linked]
            constructor
            · rintro ⟨other, isOther, otherActive, member⟩
              exact unique other isOther otherActive ▸ member
            · exact fun member => ⟨c, isChild, childActive, member⟩
          rw [regionValue_of_compound kind found]
          cases isLeaf : tree.isLeaf c with
          | true =>
              refine ⟨[c], (statesBelow_compound_iff kind).2
                ⟨c, _, isKey, .inl ⟨isLeaf, rfl, rfl⟩⟩, fun m => ?_⟩
              rw [inside, List.mem_singleton]
              exact (or_iff_left fun member => not_below_leaf linked isLeaf member.2).symm
          | false =>
              refine ⟨c :: below, (statesBelow_compound_iff kind).2
                ⟨c, _, isKey, .inr ⟨isLeaf, _, _, rfl, described, rfl⟩⟩, fun m => ?_⟩
              rw [inside, List.mem_cons, below_iff]
      | parallel =>
          rw [regionValue_of_parallel kind]
          have keys := nodup_keys (n := n) linked discrete (regionValue tree active)
          have each : ∀ c ∈ tree.children n, _ := fun c isChild =>
            covers_of_mem ((Keyed.mem_sort_iff keys).2 (List.mem_map_of_mem isChild))
              (Keyed.increasing_sort _)
              (ih c isChild (legal.parallel isActive kind c isChild))
          refine ⟨_, (statesBelow_parallel_iff kind).2
            ⟨_, rfl, fun region member => ?_, fun c isChild => (each c isChild).1, rfl⟩,
            fun m => ?_⟩
          · obtain ⟨c, isChild, rfl⟩ := List.mem_map.1 (Keyed.mem_of_mem_sort member)
            exact ⟨c, childByKey?_of_discrete discrete isChild⟩
          · rw [legal.below_iff linked, List.mem_flatMap]
            constructor
            · rintro ⟨c, isChild, member⟩
              refine ⟨c, isChild, legal.parallel isActive kind c isChild, ?_⟩
              exact (List.mem_cons.1 member).imp_right ((each c isChild).2 m).1
            · rintro ⟨c, isChild, _, member⟩
              exact ⟨c, isChild, List.mem_cons.2 (member.imp_right ((each c isChild).2 m).2)⟩
      | atomic | final =>
          have isLeaf : tree.isLeaf n = true := by simp [isLeaf_eq, kind, StateKind.isLeaf]
          rw [regionValue_of_leaf isLeaf]
          refine ⟨[], (statesBelow_leaf_iff isLeaf).2 ⟨rfl, rfl⟩, fun m => ?_⟩
          simp [not_below_leaf linked isLeaf]

/-- Read as a configuration, the value of a legal one gives it back. -/
theorem ofValue_value_of_legal (linked : tree.Linked) (discrete : tree.Discrete)
    (legal : Legal tree active) : ofValue tree (Configuration.value tree active) = .ok active := by
  rw [ofValue_eq_ok_iff, Configuration.value]
  cases isLeaf : tree.isLeaf root with
  | true =>
      refine .inl ⟨rfl, rfl, ?_⟩
      ext m
      rw [StateSet.mem_ofList, List.mem_singleton]
      constructor
      · intro isActive
        by_contra notRoot
        exact not_below_leaf linked isLeaf (linked.below_root (legal.inTree isActive) notRoot)
      · rintro rfl
        exact legal.root
  | false =>
      obtain ⟨states, described, mem_iff⟩ :=
        statesBelow_regionValue linked discrete legal legal.root
      refine .inr ⟨rfl, states, described, ?_⟩
      ext m
      rw [StateSet.mem_ofList, List.mem_cons, mem_iff]
      constructor
      · intro isActive
        by_cases isRoot : m = root
        · exact .inl isRoot
        · exact .inr ⟨isActive, linked.below_root (legal.inTree isActive) isRoot⟩
      · rintro (rfl | ⟨isActive, _⟩)
        · exact legal.root
        · exact isActive

/-- The regions of a value that covers all children are theirs, in the order of the keys. -/
theorem sort_regions {regions : List (String × StateValue)} {valueOf : Nat → StateValue}
    (linked : tree.Linked) (discrete : tree.Discrete) (increasing : Keyed.Increasing regions)
    (known : ∀ region ∈ regions, ∃ c, tree.childByKey? n region.1 = some c)
    (covers : ∀ c ∈ tree.children n, Covers tree regions c)
    (same : ∀ c ∈ tree.children n, ∀ inner,
      regions.lookup (tree.node c).key = some inner → valueOf c = inner) :
    Keyed.sort ((tree.children n).map fun c => ((tree.node c).key, valueOf c)) = regions := by
  apply (Keyed.increasing_sort _).eq_of_mem_iff increasing
  intro entry
  rw [Keyed.mem_sort_iff (nodup_keys linked discrete valueOf), List.mem_map]
  constructor
  · rintro ⟨c, isChild, rfl⟩
    obtain ⟨inner, found, _⟩ := covers c isChild
    rw [same c isChild inner found]
    exact Keyed.mem_of_lookup found
  · intro member
    obtain ⟨c, isKey⟩ := known entry member
    have isChild := tree.childByKey?_mem isKey
    have sameKey : (tree.node c).key = entry.1 := by simpa using List.find?_some isKey
    have found := Keyed.lookup_of_mem increasing member
    rw [← sameKey] at found
    exact ⟨c, isChild, Prod.ext sameKey (same c isChild _ found)⟩

/-- The child that a value makes active below a compound state is found among those that
are active. -/
theorem find_described_child (linked : tree.Linked) (isCompound : tree.kind n = .compound)
    (described : statesBelow tree n value = .ok states) (isChild : c ∈ tree.children n)
    (member : c ∈ states) (agrees : ∀ m ∈ tree.children n, m ∈ active ↔ m ∈ states) :
    (tree.children n).find? active.contains = some c := by
  obtain ⟨d, _, _, unique⟩ :=
    (legalBelow_of_described linked described).compound (.inl rfl) isCompound
  apply find_active_child isChild ((agrees c isChild).2 member)
  intro other isOther otherActive
  have isUnique := unique other isOther ((agrees other isOther).1 otherActive)
  exact isUnique.trans (unique c isChild member).symm

/-- What a value describes has that value. -/
theorem regionValue_of_described (linked : tree.Linked) (discrete : tree.Discrete)
    (ordered : value.Ordered) (described : statesBelow tree n value = .ok states)
    (agrees : ∀ m, tree.Below m n → (m ∈ active ↔ m ∈ states)) :
    regionValue tree active n = value := by
  induction n using tree.induction_down generalizing value states with
  | step n ih =>
      cases kind : tree.kind n with
      | compound =>
          obtain ⟨c, key, isKey, chosen⟩ := (statesBelow_compound_iff kind).1 described
          have isChild := tree.childByKey?_mem isKey
          have sameKey : (tree.node c).key = key := by simpa using List.find?_some isKey
          have member : c ∈ states := by
            rcases chosen with ⟨_, _, rfl⟩ | ⟨_, _, _, _, _, rfl⟩ <;> exact .head _
          have found := find_described_child linked kind described isChild member
            fun m isOther => agrees m (linked.child_below isOther)
          rw [regionValue_of_compound kind found, sameKey]
          rcases chosen with ⟨isLeaf, rfl, rfl⟩ | ⟨composite, inner, below, rfl, isBelow, rfl⟩
          · rw [if_pos isLeaf]
          · have innerOrdered := regionsOrdered_iff.1 ordered.2 _ (.head _)
            have sameInner : regionValue tree active c = inner := by
              apply ih c isChild innerOrdered isBelow
              intro m under
              have different : m ≠ c := fun same => not_below_self (same ▸ under)
              rw [agrees m (under.trans (linked.child_below isChild)), List.mem_cons,
                or_iff_right different]
            rw [composite, sameInner]
            rfl
      | parallel =>
          obtain ⟨regions, rfl, known, covers, rfl⟩ := (statesBelow_parallel_iff kind).1 described
          rw [regionValue_of_parallel kind]
          refine congrArg StateValue.nested
            (sort_regions linked discrete ordered.1 known covers fun c isChild inner found => ?_)
          -- below this child the other regions make nothing active
          obtain ⟨other, isOther, isBelow⟩ := covers c isChild
          obtain rfl := Option.some.inj (found.symm.trans isOther)
          apply ih c isChild (regionsOrdered_iff.1 ordered.2 _ (Keyed.mem_of_lookup found)) isBelow
          intro m under
          rw [agrees m (under.trans (linked.child_below isChild))]
          apply (choice_of_covers kind covers).mem_iff_of_below linked _ isChild under
          intro d isOtherChild
          obtain ⟨_, _, alsoBelow⟩ := covers d isOtherChild
          exact legalBelow_of_described linked alsoBelow
      | atomic | final =>
          have isLeaf : tree.isLeaf n = true := by simp [isLeaf_eq, kind, StateKind.isLeaf]
          obtain ⟨rfl, _⟩ := (statesBelow_leaf_iff isLeaf).1 described
          exact regionValue_of_leaf isLeaf

/-- An accepted value is the value of the configuration that it describes. -/
theorem value_of_ofValue (linked : tree.Linked) (discrete : tree.Discrete)
    (ordered : value.Ordered) (isOk : ofValue tree value = .ok active) :
    Configuration.value tree active = value := by
  rw [Configuration.value]
  rcases ofValue_eq_ok_iff.1 isOk with ⟨isLeaf, rfl, _⟩ | ⟨composite, states, described, rfl⟩
  · rw [if_pos isLeaf]
  · rw [composite]
    apply regionValue_of_described linked discrete ordered described
    intro m below
    have notRoot : m ≠ root := fun isRoot => not_below_root (isRoot ▸ below)
    rw [StateSet.mem_ofList, List.mem_cons, or_iff_right notRoot]

theorem ordered_regionValue (tree : StateTree) (active : Configuration) (n : Nat) :
    (regionValue tree active n).Ordered := by
  induction n using tree.induction_down with
  | step n ih =>
      cases kind : tree.kind n with
      | compound =>
          cases found : (tree.children n).find? active.contains with
          | none =>
              have isEmpty : regionValue tree active n = .nested [] := by
                rw [regionValue, kind]
                simp only
                split
                · rfl
                · next isFound => cases isFound.symm.trans found
              rw [isEmpty]
              exact ⟨.nil, trivial⟩
          | some c =>
              rw [regionValue_of_compound kind found]
              split
              · trivial
              · exact ⟨List.pairwise_singleton _ _, ih c (tree.child_of_find found), trivial⟩
      | parallel =>
          rw [regionValue_of_parallel kind]
          refine ⟨Keyed.increasing_sort _, regionsOrdered_iff.2 fun region member => ?_⟩
          obtain ⟨c, isChild, rfl⟩ := List.mem_map.1 (Keyed.mem_of_mem_sort member)
          exact ih c isChild
      | atomic | final =>
          rw [regionValue_of_leaf (by simp [isLeaf_eq, kind, StateKind.isLeaf])]
          exact ⟨.nil, trivial⟩

theorem ordered_value (tree : StateTree) (active : Configuration) :
    (Configuration.value tree active).Ordered := by
  rw [Configuration.value]
  split
  · trivial
  · exact ordered_regionValue tree active root

/-- Legal configurations and accepted values determine each other, and every other value is
rejected. -/
theorem value_inverse {machine : MachineSpec} {definition : Definition}
    (distinct : machine.root.Distinct) (built : machine.build = .ok definition) :
    (∀ active, isLegal definition.toStateTree active = true →
        (Configuration.value definition.toStateTree active).Ordered ∧
          ofValue definition.toStateTree (Configuration.value definition.toStateTree active) =
            .ok active) ∧
      (∀ value active, value.Ordered → ofValue definition.toStateTree value = .ok active →
        isLegal definition.toStateTree active = true ∧
          Configuration.value definition.toStateTree active = value) ∧
      ∀ value, value.Ordered →
        ((∃ error, ofValue definition.toStateTree value = .error error) ↔
          ¬ ∃ active, isLegal definition.toStateTree active = true ∧
            Configuration.value definition.toStateTree active = value) := by
  have linked := (MachineSpec.wellFormed_of_build built).linked
  have discrete : definition.Discrete := by
    obtain ⟨_, rfl⟩ := MachineSpec.build_eq_ok_iff.1 built
    exact discrete_ofMachine distinct
  have inverse : ∀ active, isLegal definition.toStateTree active = true →
      ofValue definition.toStateTree (Configuration.value definition.toStateTree active) =
        .ok active := by
    intro active legal
    apply ofValue_value_of_legal linked discrete
    exact (isLegal_iff linked).1 legal
  have accepted : ∀ value active, value.Ordered →
      ofValue definition.toStateTree value = .ok active →
      isLegal definition.toStateTree active = true ∧
        Configuration.value definition.toStateTree active = value := by
    intro value active ordered isOk
    constructor
    · exact (isLegal_iff linked).2 (legal_of_ofValue linked isOk)
    · exact value_of_ofValue linked discrete ordered isOk
  refine ⟨fun active legal => ⟨ordered_value _ active, inverse active legal⟩, accepted, ?_⟩
  intro value ordered
  constructor
  · rintro ⟨error, rejected⟩ ⟨active, legal, rfl⟩
    cases (inverse active legal).symm.trans rejected
  · intro none
    cases outcome : ofValue definition.toStateTree value with
    | error error => exact ⟨error, rfl⟩
    | ok active => exact absurd ⟨active, accepted value active ordered outcome⟩ none

/-- The studio with its light dimmed and its sound loud; that it is on says too little. -/
theorem studio_values :
    ofValue MachineSpec.studio.resolved.toStateTree
        (Configuration.value MachineSpec.studio.resolved.toStateTree
          (.ofList [0, 2, 3, 4, 6, 8])) = .ok (.ofList [0, 2, 3, 4, 6, 8]) ∧
      Configuration.value MachineSpec.studio.resolved.toStateTree (.ofList [0, 2, 3, 4, 6, 8]) =
        .nested [("on", .nested [("light", .leaf "dim"), ("sound", .leaf "loud")])] ∧
      ¬ ∃ active, isLegal MachineSpec.studio.resolved.toStateTree active = true ∧
        Configuration.value MachineSpec.studio.resolved.toStateTree active = .leaf "on" := by
  have inverse := value_inverse (by decide +kernel) MachineSpec.studio_built
  have legal : isLegal MachineSpec.studio.resolved.toStateTree (.ofList [0, 2, 3, 4, 6, 8]) =
      true := by decide +kernel
  have describes : ofValue MachineSpec.studio.resolved.toStateTree
      (.nested [("on", .nested [("light", .leaf "dim"), ("sound", .leaf "loud")])]) =
      .ok (.ofList [0, 2, 3, 4, 6, 8]) := by cbv
  have rejected : ofValue MachineSpec.studio.resolved.toStateTree (.leaf "on") =
      .error (.shapeMismatch "studio.on") := by cbv
  have increasing : Keyed.Increasing
      [("light", StateValue.leaf "dim"), ("sound", StateValue.leaf "loud")] :=
    List.pairwise_pair.2 (by decide)
  refine ⟨(inverse.1 _ legal).2, (inverse.2.1 _ _ ?_ describes).2,
    (inverse.2.2 (.leaf "on") trivial).1 ⟨_, rejected⟩⟩
  exact ⟨List.pairwise_singleton _ _, ⟨increasing, trivial, trivial, trivial⟩, trivial⟩

end Configuration

end Statechart
