import Statechart.Proofs.ActiveLeaves
import Statechart.Proofs.KeyPaths
import Statechart.Proofs.NodeTable

/-!
# What is asked of a value

The value of a legal configuration has an entry for each active child, at every level. So a path is
at an active state exactly if it follows entries, and what is collected from the entries is
collected from the active leaves: their paths, and of the leaves below the top level the keys,
except for those that are regions themselves.
-/

namespace Statechart

theorem Keyed.sort_perm {α : Type} {entries : List (String × α)}
    (distinct : (entries.map (·.1)).Nodup) : (sort entries).Perm entries := by
  have sorted : (sort entries).Nodup := by
    refine (increasing_sort entries).imp fun less same => ?_
    exact String.lt_irrefl _ (same ▸ less)
  exact (List.perm_ext_iff_of_nodup sorted (.of_map _ distinct)).2 fun _ => mem_sort_iff distinct

namespace StateValue

variable {value : StateValue} {path segment : String} {rest : List String}

/-- The entries of a value. That of a leaf has nothing below it. -/
def regions : StateValue → List (String × StateValue)
  | .leaf key => [(key, .nested [])]
  | .nested regions => regions

/-- What an entry contributes to the substates around it. -/
def collected : StateValue → List String
  | .leaf key => [key]
  | .nested regions => (StateValue.nested regions).substates

theorem matchesSegments_cons : value.matchesSegments (segment :: rest) = true ↔
    ∃ inner, value.regions.lookup segment = some inner ∧ inner.matchesSegments rest = true := by
  cases value with
  | leaf key =>
      have atEnd : (StateValue.nested []).matchesSegments rest = rest.isEmpty := by
        cases rest <;> rfl
      by_cases same : segment = key
      · simp [matchesSegments, regions, same, atEnd]
      · simp [matchesSegments, regions, List.lookup_cons, beq_false_of_ne same, Ne.symm same]
  | nested entries =>
      rw [matchesSegments, regions]
      cases entries.lookup segment <;> simp

theorem pathsOfRegions_eq_flatMap {entries : List (String × StateValue)} :
    pathsOfRegions path entries =
      entries.flatMap fun entry => entry.2.pathsBelow (Path.extend path entry.1) := by
  induction entries with
  | nil => rfl
  | cons entry rest ih => rw [pathsOfRegions, ih, List.flatMap_cons]

theorem pathsBelow_of_regions (inhabited : value.regions ≠ []) : value.pathsBelow path =
    value.regions.flatMap fun entry => entry.2.pathsBelow (Path.extend path entry.1) := by
  cases value with
  | leaf key => simp [regions, pathsBelow]
  | nested entries =>
      cases entries with
      | nil => exact absurd rfl inhabited
      | cons entry rest =>
          rw [pathsBelow, pathsOfRegions_eq_flatMap, regions, List.flatMap_cons]

theorem Ordered.regions_increasing (ordered : value.Ordered) :
    Keyed.Increasing value.regions := by
  cases value with
  | leaf key => exact List.pairwise_singleton ..
  | nested entries => exact ordered.1

theorem substates_eq_flatMap :
    value.substates = value.regions.flatMap fun entry => entry.2.collected := by
  have each : ∀ entries : List (String × StateValue),
      substatesOf entries = entries.flatMap fun entry => entry.2.collected := by
    intro entries
    induction entries with
    | nil => rfl
    | cons entry rest ih =>
        obtain ⟨key, inner⟩ := entry
        cases inner <;> simp [substatesOf, collected, ih]
  cases value with
  | leaf key => rfl
  | nested entries => exact each entries

end StateValue

theorem StateTree.two_le_length_ancestors {tree : StateTree} {n c p : Nat}
    (isParent : tree.parent? c = some p) (below : tree.Below n c) :
    2 ≤ (tree.ancestors n).length := by
  obtain ⟨q, isAbove, within⟩ := below_iff.1 below
  obtain ⟨r, isNext⟩ : ∃ r, tree.parent? q = some r := by
    rcases within with rfl | under
    · exact ⟨p, isParent⟩
    · obtain ⟨r, isNext, _⟩ := below_iff.1 under
      exact ⟨r, isNext⟩
  rw [ancestors_of_parent isAbove, ancestors_of_parent isNext, List.length_cons, List.length_cons]
  exact Nat.le_add_left 2 _

/-- A state is a region of a parallel state. -/
def StateTree.isRegion (tree : StateTree) (n : Nat) : Bool :=
  (tree.parent? n).any fun p => decide (tree.kind p = .parallel)

theorem StateTree.isRegion_of_parent {tree : StateTree} {n p : Nat}
    (isParent : tree.parent? n = some p) :
    tree.isRegion n = decide (tree.kind p = .parallel) := by
  rw [isRegion, isParent, Option.any_some]

namespace Configuration

open StateTree StateValue

variable {tree : StateTree} {active : Configuration} {n m c : Nat}

section Entries

variable (linked : tree.Linked) (discrete : tree.Discrete) (legal : Legal tree active)

include linked discrete legal

/-- The value of an active state has an entry for each active child. -/
theorem regions_perm (isActive : n ∈ active) :
    (regionValue tree active n).regions.Perm
      ((activeChildren tree active n).map fun c =>
        ((tree.node c).key, regionValue tree active c)) := by
  cases kind : tree.kind n with
  | compound =>
      obtain ⟨c, isChild, childActive, unique⟩ := legal.compound isActive kind
      rw [regionValue_of_compound kind (find_active_child isChild childActive unique),
        activeChildren_of_compound linked isChild childActive unique]
      split
      · next isLeaf =>
        rw [List.map_singleton, regionValue_of_leaf isLeaf]
        rfl
      · rfl
  | parallel =>
      have all : activeChildren tree active n = tree.children n :=
        List.filter_eq_self.2 fun c isChild =>
          StateSet.contains_iff.2 (legal.parallel isActive kind c isChild)
      rw [regionValue_of_parallel kind, all]
      exact Keyed.sort_perm (nodup_keys linked discrete (regionValue tree active))
  | atomic | final =>
      have isLeaf : tree.isLeaf n = true := by rw [isLeaf_eq, kind]; rfl
      rw [regionValue_of_leaf isLeaf, activeChildren, linked.childless isLeaf]
      exact .nil

theorem lookup_regions_iff (isActive : n ∈ active) {key : String} {inner : StateValue} :
    (regionValue tree active n).regions.lookup key = some inner ↔
      ∃ c ∈ tree.children n, c ∈ active ∧ (tree.node c).key = key ∧
        regionValue tree active c = inner := by
  have increasing := (ordered_regionValue tree active n).regions_increasing
  have isEntry : (key, inner) ∈ (regionValue tree active n).regions ↔ _ :=
    (regions_perm linked discrete legal isActive).mem_iff
  simp only [List.mem_map, mem_activeChildren, Prod.mk.injEq, and_assoc] at isEntry
  exact ⟨fun found => isEntry.1 (Keyed.mem_of_lookup found),
    fun isChild => Keyed.lookup_of_mem increasing (isEntry.2 isChild)⟩

/-- Keys match below an active state exactly if they lead on to an active state. -/
theorem matchesSegments_iff (isActive : n ∈ active) {keys : List String} :
    (regionValue tree active n).matchesSegments keys = true ↔
      ∃ m ∈ active, tree.Reaches n keys m := by
  induction keys generalizing n with
  | nil => exact ⟨fun _ => ⟨n, isActive, .here n⟩, fun _ => by rw [matchesSegments]⟩
  | cons key rest ih =>
      simp only [matchesSegments_cons, lookup_regions_iff linked discrete legal isActive]
      constructor
      · rintro ⟨_, ⟨c, isChild, childActive, rfl, rfl⟩, onward⟩
        obtain ⟨m, alsoActive, reaches⟩ := (ih childActive).1 onward
        exact ⟨m, alsoActive, .down isChild reaches⟩
      · rintro ⟨m, alsoActive, reaches⟩
        cases reaches with
        | @down _ c _ _ isChild onward =>
            have childActive := legal.above_within alsoActive (onward.within linked)
            exact ⟨_, ⟨c, isChild, childActive, rfl, rfl⟩,
              (ih childActive).2 ⟨m, alsoActive, onward⟩⟩

/-- A path is at the value of a configuration exactly if it is that of an active state. -/
theorem isAt_iff (dotless : tree.Dotless) {path : String} :
    (regionValue tree active root).isAt path = true ↔
      ∃ n ∈ active, n ≠ root ∧ tree.path n = path := by
  rw [isAt, matchesSegments_iff linked discrete legal legal.root]
  constructor
  · rintro ⟨n, isActive, reaches⟩
    refine ⟨n, isActive, ?_, ?_⟩
    · rintro rfl
      exact not_below_root (reaches.leads_below linked (Path.segments_ne_nil path))
    · rw [StateTree.path, (reaches_root_iff linked (legal.inTree isActive)).1 reaches,
        Path.intercalate_segments]
  · rintro ⟨n, isActive, notRoot, rfl⟩
    have inTree := legal.inTree isActive
    rw [segments_path linked dotless inTree notRoot]
    exact ⟨n, isActive, reaches_keysTo linked inTree⟩

/-- What is collected from the entries of an active state is what is collected from its active
children, whatever that is in the end. -/
theorem flatMap_regions_perm {α : Type} (isActive : n ∈ active)
    {collect : String × StateValue → List α} {own : Nat → List α} {whole : List α}
    (fromChildren : whole.Perm ((activeChildren tree active n).flatMap own))
    (each : ∀ c ∈ tree.children n, c ∈ active →
      (collect ((tree.node c).key, regionValue tree active c)).Perm (own c)) :
    ((regionValue tree active n).regions.flatMap collect).Perm whole := by
  have entries := (regions_perm linked discrete legal isActive).flatMap_right collect
  rw [List.flatMap_map] at entries
  refine entries.trans (.trans (List.Perm.flatMap_left _ fun c member => ?_) fromChildren.symm)
  obtain ⟨isChild, childActive⟩ := mem_activeChildren.1 member
  exact each c isChild childActive

variable (inhabited : ∀ {n : Nat}, tree.kind n = .parallel → tree.children n ≠ [])

include inhabited

theorem regions_ne_nil (isActive : n ∈ active) (composite : tree.isLeaf n = false) :
    (regionValue tree active n).regions ≠ [] := by
  intro isEmpty
  have perm := regions_perm linked discrete legal isActive
  rw [isEmpty] at perm
  exact activeChildren_ne_nil legal inhabited isActive composite
    (List.map_eq_nil_iff.1 perm.nil_eq.symm)

/-- The leaves in the value of an active state are the active leaves within it. -/
theorem pathsBelow_perm (dotless : tree.Dotless) (isActive : n ∈ active) :
    ((regionValue tree active n).pathsBelow (tree.path n)).Perm
      ((leavesWithin tree active n).map tree.path) := by
  induction n using tree.induction_down with
  | step n ih =>
      cases isLeaf : tree.isLeaf n with
      | true =>
          rw [regionValue_of_leaf isLeaf, leavesWithin_of_leaf linked isActive isLeaf, pathsBelow]
          exact .refl _
      | false =>
          have entries := regions_ne_nil linked discrete legal inhabited isActive isLeaf
          have fromChildren := (leavesWithin_perm linked legal isLeaf).map tree.path
          rw [List.map_flatMap] at fromChildren
          rw [pathsBelow_of_regions entries]
          refine flatMap_regions_perm linked discrete legal isActive fromChildren ?_
          intro c isChild childActive
          rw [← (path_of_child linked dotless isChild).1]
          exact ih c isChild childActive

end Entries

section Substates

/-- The keys of the active leaves within a state that are not regions. -/
def innerKeys (tree : StateTree) (active : Configuration) (n : Nat) : List String :=
  ((leavesWithin tree active n).filter fun m => !tree.isRegion m).map fun m => (tree.node m).key

/-- The active leaves below the top level. -/
def deepLeaves (tree : StateTree) (active : Configuration) : List Nat :=
  (leaves tree active).filter fun m => decide (2 ≤ (tree.node m).depth)

variable (linked : tree.Linked)

include linked

theorem innerKeys_of_leaf (isActive : n ∈ active) (isLeaf : tree.isLeaf n = true) :
    innerKeys tree active n = if tree.isRegion n then [] else [(tree.node n).key] := by
  rw [innerKeys, leavesWithin_of_leaf linked isActive isLeaf, List.filter_singleton]
  cases tree.isRegion n <;> rfl

variable (legal : Legal tree active)

include legal

theorem innerKeys_perm (composite : tree.isLeaf n = false) :
    (innerKeys tree active n).Perm
      ((activeChildren tree active n).flatMap (innerKeys tree active)) := by
  have perm := (leavesWithin_perm linked legal composite).filter fun m => !tree.isRegion m
  rw [List.filter_flatMap] at perm
  have keys := perm.map fun m => (tree.node m).key
  rwa [List.map_flatMap] at keys

variable (discrete : tree.Discrete)

include discrete

/-- A leaf contributes nothing to the substates around it, although it may be a region; a composite
state contributes the keys of the leaves within it that are no regions. -/
theorem collected_perm (isActive : n ∈ active) : (regionValue tree active n).collected.Perm
    (if tree.isLeaf n then [] else innerKeys tree active n) := by
  induction n using tree.induction_down with
  | step n ih =>
      cases kind : tree.kind n with
      | compound =>
          obtain ⟨c, isChild, childActive, unique⟩ := legal.compound isActive kind
          have composite : tree.isLeaf n = false := by rw [isLeaf_eq, kind]; rfl
          have inner := innerKeys_perm linked legal composite
          rw [activeChildren_of_compound linked isChild childActive unique,
            List.flatMap_singleton] at inner
          rw [regionValue_of_compound kind (find_active_child isChild childActive unique)]
          simp only [composite, Bool.false_eq_true, if_false]
          refine .trans ?_ inner.symm
          cases isLeaf : tree.isLeaf c with
          | true =>
              have isRegion := isRegion_of_parent (linked.parent_iff.2 isChild)
              rw [innerKeys_of_leaf linked childActive isLeaf, isRegion, kind]
              exact .refl _
          | false =>
              have below := ih c isChild childActive
              rw [isLeaf] at below
              rwa [if_neg Bool.false_ne_true, collected, substates_eq_flatMap, regions,
                List.flatMap_singleton]
      | parallel =>
          have composite : tree.isLeaf n = false := by rw [isLeaf_eq, kind]; rfl
          have isSubstates : (regionValue tree active n).collected =
              (regionValue tree active n).substates := by
            rw [regionValue_of_parallel kind, collected]
          rw [isSubstates, substates_eq_flatMap, composite, if_neg Bool.false_ne_true]
          refine flatMap_regions_perm linked discrete legal isActive
            (innerKeys_perm linked legal composite) fun c isChild childActive => ?_
          refine (ih c isChild childActive).trans ?_
          cases isLeaf : tree.isLeaf c with
          | true =>
              have isRegion := isRegion_of_parent (linked.parent_iff.2 isChild)
              rw [innerKeys_of_leaf linked childActive isLeaf, isRegion, kind]
              exact .refl _
          | false => exact .refl _
      | atomic | final =>
          have isLeaf : tree.isLeaf n = true := by rw [isLeaf_eq, kind]; rfl
          rw [regionValue_of_leaf isLeaf, isLeaf]
          exact .refl _

/-- The substates of a value are the keys of the active leaves below the top level that are no
regions. -/
theorem substates_perm (isDepth : ∀ {m : Nat}, m ∈ active →
      (tree.node m).depth = (tree.ancestors m).length) (composite : tree.isLeaf root = false) :
    (regionValue tree active root).substates.Perm
      (((deepLeaves tree active).filter fun m => !tree.isRegion m).map fun m =>
        (tree.node m).key) := by
  have fromChildren := (leavesWithin_perm linked legal composite).filter fun m =>
    !tree.isRegion m && decide (2 ≤ (tree.node m).depth)
  rw [leavesWithin_root linked legal, List.filter_flatMap] at fromChildren
  have keys := fromChildren.map fun m => (tree.node m).key
  rw [List.map_flatMap] at keys
  rw [substates_eq_flatMap, deepLeaves, List.filter_filter]
  refine flatMap_regions_perm linked discrete legal legal.root keys fun c isChild childActive => ?_
  have isParent := linked.parent_iff.2 isChild
  refine (collected_perm linked legal discrete childActive).trans ?_
  cases isLeaf : tree.isLeaf c with
  | true =>
      have shallow : (tree.node c).depth = 1 := by
        rw [isDepth childActive, ancestors_of_parent isParent, ancestors_of_orphan parent?_root]
        rfl
      rw [leavesWithin_of_leaf linked childActive isLeaf, List.filter_singleton, shallow]
      simp
  | false =>
      have deep : ∀ m ∈ leavesWithin tree active c, 2 ≤ (tree.node m).depth := by
        intro m isWithin
        obtain ⟨isActive, alsoLeaf, rfl | below⟩ := mem_leavesWithin.1 isWithin
        · cases isLeaf.symm.trans alsoLeaf
        · rw [isDepth isActive]
          exact two_le_length_ancestors isParent below
      have same : (leavesWithin tree active c).filter (fun m =>
            !tree.isRegion m && decide (2 ≤ (tree.node m).depth)) =
          (leavesWithin tree active c).filter fun m => !tree.isRegion m :=
        List.filter_congr fun m isWithin => by
          rw [decide_eq_true (deep m isWithin), Bool.and_true]
      rw [if_neg Bool.false_ne_true, innerKeys, same]

end Substates

section Machine

variable {machine : MachineSpec} {definition : Definition}

/-- The queries of a value tell of the states that are active: a path matches exactly if it is that
of an active state below the root, and the leaf paths are those of the active leaves. -/
theorem queries_of_build (distinct : machine.root.Distinct)
    (built : machine.build = .ok definition)
    (composite : definition.isLeaf root = false)
    (isLegal : isLegal definition.toStateTree active = true) :
    let value := Configuration.value definition.toStateTree active
    (∀ path, value.isAt path = true ↔
      ∃ n ∈ active, n ≠ root ∧ definition.path n = path) ∧
    value.leafPaths.Perm ((leaves definition.toStateTree active).map definition.path) ∧
    value.leafPaths.Nodup := by
  have tabulates := MachineSpec.tabulates_of_build distinct built
  have wellFormed := MachineSpec.wellFormed_of_build built
  have linked : definition.Linked := wellFormed.linked
  have discrete : definition.Discrete := tabulates.siblings
  have dotless : definition.Dotless := MachineSpec.dotless_of_build built
  have legal := (isLegal_iff linked).1 isLegal
  have isValue : Configuration.value definition.toStateTree active =
      regionValue definition.toStateTree active root := by
    rw [Configuration.value, composite, if_neg Bool.false_ne_true]
  have paths := pathsBelow_perm linked discrete legal wellFormed.regions dotless legal.root
  rw [path_root, leavesWithin_root linked legal] at paths
  have apart : ((leaves definition.toStateTree active).map definition.path).Nodup :=
    nodup_leaves.map_on fun n isLeaf m alsoLeaf same =>
      eq_of_path linked discrete dotless (legal.inTree (mem_leaves.1 isLeaf).1)
        (legal.inTree (mem_leaves.1 alsoLeaf).1) same
  simp only [isValue, StateValue.leafPaths]
  exact ⟨fun path => isAt_iff linked discrete legal dotless, paths, paths.nodup_iff.2 apart⟩

/-- In the studio the path of its loud sound matches, and its leaves are found by their paths. -/
theorem studio_queried :
    let value := Configuration.value MachineSpec.studio.resolved.toStateTree
      (.ofList [0, 2, 3, 4, 6, 8])
    MachineSpec.studio.root.Distinct ∧
      MachineSpec.studio.build = .ok MachineSpec.studio.resolved ∧
      MachineSpec.studio.resolved.isLeaf root = false ∧
      isLegal MachineSpec.studio.resolved.toStateTree (.ofList [0, 2, 3, 4, 6, 8]) = true ∧
      value.isAt "on.sound.loud" = true ∧
      value.leafPaths.Perm ["on.light.dim", "on.sound.loud"] := by
  have distinct : MachineSpec.studio.root.Distinct := by decide +kernel
  have composite : MachineSpec.studio.resolved.isLeaf root = false := by decide +kernel
  have legal : isLegal MachineSpec.studio.resolved.toStateTree (.ofList [0, 2, 3, 4, 6, 8]) =
      true := by decide +kernel
  have isPath : MachineSpec.studio.resolved.path 8 = "on.sound.loud" := by cbv
  have paths : (leaves MachineSpec.studio.resolved.toStateTree (.ofList [0, 2, 3, 4, 6, 8])).map
      MachineSpec.studio.resolved.path = ["on.light.dim", "on.sound.loud"] := by cbv
  obtain ⟨matched, leafPaths, _⟩ :=
    queries_of_build distinct MachineSpec.studio_built composite legal
  rw [paths] at leafPaths
  exact ⟨distinct, MachineSpec.studio_built, composite, legal,
    (matched _).2 ⟨8, by decide, by decide, isPath⟩, leafPaths⟩

/-- The substates of a value are the keys of the active leaves below the top level, but leaves that
are regions are left out; so all are there exactly if no such leaf is a region. -/
theorem substates_of_build (distinct : machine.root.Distinct)
    (built : machine.build = .ok definition)
    (composite : definition.isLeaf root = false)
    (isLegal : isLegal definition.toStateTree active = true) :
    let substates := (Configuration.value definition.toStateTree active).substates
    let deep := deepLeaves definition.toStateTree active
    let key := fun n => (definition.node n).key
    substates.Perm ((deep.filter fun n => !definition.isRegion n).map key) ∧
    (substates.Perm (deep.map key) ↔ ∀ n ∈ deep, definition.isRegion n = false) := by
  have tabulates := MachineSpec.tabulates_of_build distinct built
  have linked : definition.Linked := (MachineSpec.wellFormed_of_build built).linked
  have legal := (isLegal_iff linked).1 isLegal
  have perm := substates_perm linked legal tabulates.siblings
    (fun isActive => tabulates.depth (legal.inTree isActive)) composite
  simp only [Configuration.value, composite, if_neg Bool.false_ne_true]
  refine ⟨perm, fun all => ?_, fun noRegion => ?_⟩
  · have sameLength := (perm.symm.trans all).length_eq
    rw [List.length_map, List.length_map, List.length_filter_eq_length_iff] at sameLength
    exact fun n isDeep => by simpa using sameLength n isDeep
  · have kept : (deepLeaves definition.toStateTree active).filter
        (fun n => !definition.isRegion n) = deepLeaves definition.toStateTree active :=
      List.filter_eq_self.2 fun n isDeep => by rw [noRegion n isDeep, Bool.not_false]
    rwa [kept] at perm

/-- A gallery whose lamps are a region without states of their own. -/
def gallery : MachineSpec :=
  (MachineSpec.named "gallery").startingIn "open"
    |>.child "open" (StateSpec.parallel
      |>.child "lamps" StateSpec.atomic
      |>.child "door" (StateSpec.compound "shut"
        |>.child "shut" StateSpec.atomic
        |>.child "ajar" StateSpec.atomic))

theorem gallery_built : gallery.build = .ok gallery.resolved :=
  MachineSpec.build_eq_ok_iff.2 ⟨by decide +kernel, rfl⟩

/-- The lamps of the gallery are missing from its substates. -/
theorem gallery_without_lamps :
    let substates :=
      (Configuration.value gallery.resolved.toStateTree (.ofList [0, 1, 2, 3, 4])).substates
    gallery.root.Distinct ∧ gallery.build = .ok gallery.resolved ∧
      gallery.resolved.isLeaf root = false ∧
      isLegal gallery.resolved.toStateTree (.ofList [0, 1, 2, 3, 4]) = true ∧
      (deepLeaves gallery.resolved.toStateTree (.ofList [0, 1, 2, 3, 4])).map
        (fun n => (gallery.resolved.node n).key) = ["lamps", "shut"] ∧
      substates.Perm ["shut"] ∧ ¬ substates.Perm ["lamps", "shut"] := by
  have distinct : gallery.root.Distinct := by decide +kernel
  have composite : gallery.resolved.isLeaf root = false := by decide +kernel
  have legal : isLegal gallery.resolved.toStateTree (.ofList [0, 1, 2, 3, 4]) = true := by
    decide +kernel
  have deep : deepLeaves gallery.resolved.toStateTree (.ofList [0, 1, 2, 3, 4]) = [2, 4] := by
    decide +kernel
  have keys : ([2, 4].map fun n => (gallery.resolved.node n).key) = ["lamps", "shut"] := by
    decide +kernel
  have isRegion : gallery.resolved.isRegion 2 = true := by decide +kernel
  obtain ⟨inner, all⟩ := substates_of_build distinct gallery_built composite legal
  rw [deep] at inner all ⊢
  rw [keys] at all
  refine ⟨distinct, gallery_built, composite, legal, keys, inner, fun every => ?_⟩
  exact Bool.false_ne_true ((all.1 every 2 (.head _)).symm.trans isRegion)

end Machine

end Configuration

end Statechart
