import Statechart.Proofs.Siblings
import Statechart.Proofs.Validity

/-!
# Paths of keys

Keys lead from a state to another, from child to child. Siblings differ in their keys, so keys lead
to one state at most; and no key is empty or has a dot, so the keys can be read off a dotted path.
Hence every state has a path from the root that is the path of no other state.
-/

namespace Statechart

namespace Path

theorem split_eq_splitOn (text : List Char) : split text = text.splitOn '.' := by
  induction text with
  | nil => rfl
  | cons c rest ih =>
      rw [split, ih, List.splitOn_cons_eq_if_modifyHead]
      obtain ⟨first, others, cut⟩ := List.exists_cons_of_ne_nil (List.splitOn_ne_nil '.' rest)
      simp [cut]

theorem segments_ne_nil (path : String) : segments path ≠ [] := by
  simp [segments, split_eq_splitOn]

/-- A path is its segments with dots between them. -/
theorem intercalate_segments (path : String) : ".".intercalate (segments path) = path := by
  rw [← String.toList_inj, String.toList_intercalate, segments, split_eq_splitOn, List.map_map]
  simp [Function.comp_def]

/-- Segments without dots are found again in the path that is made of them. -/
theorem segments_intercalate {keys : List String} (dotless : ∀ key ∈ keys, '.' ∉ key.toList)
    (notEmpty : keys ≠ []) : segments (".".intercalate keys) = keys := by
  have apart : ∀ chars ∈ keys.map String.toList, '.' ∉ chars := by simpa using dotless
  rw [segments, split_eq_splitOn, String.toList_intercalate]
  rw [show ".".toList = ['.'] from rfl, List.splitOn_intercalate '.' apart (by simpa using notEmpty)]
  simp [Function.comp_def]

end Path

namespace StateTree

/-- Keys lead from a state to another, from child to child. -/
inductive Reaches (tree : StateTree) : Nat → List String → Nat → Prop
  | here (n : Nat) : Reaches tree n [] n
  | down {n c m : Nat} {keys : List String} (isChild : c ∈ tree.children n)
      (onward : Reaches tree c keys m) : Reaches tree n ((tree.node c).key :: keys) m

variable (tree : StateTree) in
/-- Keys of children can be told from one another in a dotted path. -/
def Dotless : Prop :=
  ∀ {p c : Nat}, c ∈ tree.children p → (tree.node c).key ≠ "" ∧ '.' ∉ (tree.node c).key.toList

/-- The keys on the way from the root to a state. -/
def keysTo (tree : StateTree) (n : Nat) : List String :=
  ((n :: tree.ancestors n).map fun m => (tree.node m).key).reverse.tail

/-- The dotted path of a state, which is empty for the root. -/
def path (tree : StateTree) (n : Nat) : String := ".".intercalate (tree.keysTo n)

variable {tree : StateTree} {n m c p : Nat} {keys others : List String}

theorem keysTo_of_parent (isParent : tree.parent? c = some p) :
    tree.keysTo c = tree.keysTo p ++ [(tree.node c).key] := by
  rw [keysTo, keysTo, ancestors_of_parent isParent, List.map_cons, List.reverse_cons,
    List.tail_append_of_ne_nil (by simp)]

@[simp]
theorem keysTo_root : tree.keysTo root = [] := by
  simp [keysTo, ancestors_of_orphan parent?_root]

namespace Reaches

theorem trans (first : tree.Reaches n keys m) (second : tree.Reaches m others p) :
    tree.Reaches n (keys ++ others) p := by
  induction first with
  | here => exact second
  | down isChild _ ih => exact .down isChild (ih second)

theorem child (isChild : c ∈ tree.children n) : tree.Reaches n [(tree.node c).key] c :=
  .down isChild (.here c)

theorem within (linked : tree.Linked) (reaches : tree.Reaches n keys m) : tree.Within m n := by
  induction reaches with
  | here => exact .inl rfl
  | down isChild _ ih => exact .inr (ih.below (linked.child_below isChild))

/-- Only the empty path leads nowhere. -/
theorem leads_below (linked : tree.Linked) (reaches : tree.Reaches n keys m) (notEmpty : keys ≠ []) :
    tree.Below m n := by
  cases reaches with
  | here => exact absurd rfl notEmpty
  | down isChild onward => exact (onward.within linked).below (linked.child_below isChild)

/-- The keys to a state go on with those that lead on from there. -/
theorem keysTo_eq (linked : tree.Linked) (reaches : tree.Reaches n keys m) :
    tree.keysTo m = tree.keysTo n ++ keys := by
  induction reaches with
  | here => rw [List.append_nil]
  | down isChild _ ih =>
      rw [ih, keysTo_of_parent (linked.parent_iff.2 isChild), List.append_assoc,
        List.singleton_append]

theorem dotless (dotless : tree.Dotless) (reaches : tree.Reaches n keys m) :
    ∀ key ∈ keys, key ≠ "" ∧ '.' ∉ key.toList := by
  induction reaches with
  | here => exact fun _ member => by cases member
  | down isChild _ ih => exact List.forall_mem_cons.2 ⟨dotless isChild, ih⟩

/-- From a dotted path that leads on from a state its keys can be read off. -/
theorem segments_eq (dotless : tree.Dotless) (reaches : tree.Reaches n keys m)
    (notEmpty : keys ≠ []) : Path.segments (".".intercalate keys) = keys :=
  Path.segments_intercalate (fun key member => (reaches.dotless dotless key member).2) notEmpty

end Reaches

/-- Among distinct siblings keys lead to a state exactly if it is found by following them. -/
theorem descend?_eq_some_iff (discrete : tree.Discrete) :
    tree.descend? n keys = some m ↔ tree.Reaches n keys m := by
  induction keys generalizing n with
  | nil =>
      constructor
      · intro found
        obtain rfl : n = m := by simpa [descend?] using found
        exact .here n
      · intro reaches
        cases reaches
        rfl
  | cons key rest ih =>
      simp only [descend?, List.foldlM_cons, Option.bind_eq_bind, Option.bind_eq_some_iff] at ih ⊢
      constructor
      · rintro ⟨c, isKey, found⟩
        have sameKey : (tree.node c).key = key := by simpa using List.find?_some isKey
        rw [← sameKey]
        exact .down (tree.childByKey?_mem isKey) (ih.1 found)
      · intro reaches
        cases reaches with
        | down isChild onward =>
            exact ⟨_, childByKey?_of_discrete discrete isChild, ih.2 onward⟩

theorem Reaches.unique (discrete : tree.Discrete) (first : tree.Reaches n keys m)
    (second : tree.Reaches n keys p) : m = p := by
  rw [← descend?_eq_some_iff discrete] at first second
  exact Option.some.inj (first.symm.trans second)

theorem reaches_keysTo (linked : tree.Linked) (inTree : n < tree.size) :
    tree.Reaches root (tree.keysTo n) n := by
  induction n using Nat.strongRecOn with
  | ind n ih =>
      by_cases isRoot : n = root
      · rw [isRoot, keysTo_root]
        exact .here root
      · obtain ⟨p, isParent⟩ := linked.rooted inTree isRoot
        have before := tree.parent_lt isParent
        rw [keysTo_of_parent isParent]
        exact (ih p before (Nat.lt_trans before inTree)).trans
          (.child (linked.parent_iff.1 isParent))

/-- A path leads from the root to the state whose path it is, and nowhere else. -/
theorem reaches_root_iff (linked : tree.Linked) (inTree : n < tree.size) :
    tree.Reaches root keys n ↔ tree.keysTo n = keys := by
  constructor
  · intro reaches
    rw [reaches.keysTo_eq linked, keysTo_root, List.nil_append]
  · rintro rfl
    exact reaches_keysTo linked inTree

theorem keysTo_eq_nil_iff (linked : tree.Linked) (inTree : n < tree.size) :
    tree.keysTo n = [] ↔ n = root := by
  constructor
  · intro isEmpty
    have reaches := reaches_keysTo linked inTree
    rw [isEmpty] at reaches
    cases reaches
    rfl
  · rintro rfl
    exact keysTo_root

/-- The keys to a state other than the root are the segments of its path. -/
theorem segments_path (linked : tree.Linked) (dotless : tree.Dotless) (inTree : n < tree.size)
    (notRoot : n ≠ root) : Path.segments (tree.path n) = tree.keysTo n :=
  (reaches_keysTo linked inTree).segments_eq dotless fun isEmpty =>
    notRoot ((keysTo_eq_nil_iff linked inTree).1 isEmpty)

theorem path_root : tree.path root = "" := by
  rw [path, keysTo_root, String.intercalate_nil]

/-- The path of a child goes on from that of its parent. -/
theorem path_of_child (linked : tree.Linked) (dotless : tree.Dotless)
    (isChild : c ∈ tree.children n) :
    tree.path c = Path.extend (tree.path n) (tree.node c).key ∧ tree.path c ≠ "" := by
  have isKey := dotless isChild
  have inTree := Nat.lt_trans (tree.child_bounds isChild).1 (tree.child_bounds isChild).2
  have filled : ∀ text : String, text ++ "." ++ (tree.node c).key ≠ "" := by
    intro text isEmpty
    have isEmpty := congrArg String.toList isEmpty
    simp at isEmpty
  rw [path, path, keysTo_of_parent (linked.parent_iff.2 isChild)]
  cases before : tree.keysTo n with
  | nil => simpa [Path.extend] using isKey.1
  | cons first rest =>
      have reaches := reaches_keysTo linked inTree
      rw [before] at reaches
      have firstFilled := (reaches.dotless dotless first (.head _)).1
      have notEmpty : ".".intercalate (first :: rest) ≠ "" := by
        intro isEmpty
        have isSegment := reaches.segments_eq dotless (List.cons_ne_nil _ _)
        rw [isEmpty, show Path.segments "" = [""] from rfl] at isSegment
        exact firstFilled (List.head_eq_of_cons_eq isSegment).symm
      rw [String.intercalate_append_of_ne_nil (List.cons_ne_nil _ _) (by simp),
        String.intercalate_singleton]
      exact ⟨by rw [Path.extend, if_neg (by simpa [String.isEmpty_iff] using notEmpty)], filled _⟩

theorem path_eq_empty_iff (linked : tree.Linked) (dotless : tree.Dotless) (inTree : n < tree.size) :
    tree.path n = "" ↔ n = root := by
  refine ⟨fun isEmpty => Decidable.byContradiction fun notRoot => ?_, fun isRoot => ?_⟩
  · obtain ⟨p, isParent⟩ := linked.rooted inTree notRoot
    exact (path_of_child linked dotless (linked.parent_iff.1 isParent)).2 isEmpty
  · rw [isRoot, path_root]

/-- States are told apart by their paths. -/
theorem eq_of_path (linked : tree.Linked) (discrete : tree.Discrete) (dotless : tree.Dotless)
    (inTree : n < tree.size) (alsoInTree : m < tree.size) (same : tree.path n = tree.path m) :
    n = m := by
  have sameKeys : tree.keysTo n = tree.keysTo m := by
    by_cases isRoot : n = root
    · rw [isRoot, path_root] at same
      rw [isRoot, (path_eq_empty_iff linked dotless alsoInTree).1 same.symm]
    · have notRoot : m ≠ root := by
        rintro rfl
        rw [path_root] at same
        exact isRoot ((path_eq_empty_iff linked dotless inTree).1 same)
      rw [← segments_path linked dotless inTree isRoot,
        ← segments_path linked dotless alsoInTree notRoot, same]
  have reaches := reaches_keysTo linked inTree
  rw [sameKeys] at reaches
  exact reaches.unique discrete (reaches_keysTo linked alsoInTree)

section Machine

variable {machine : MachineSpec}

/-- The keys of a machine whose states have the right shape can stand in dotted paths. -/
theorem dotless_ofMachine (shaped : machine.Shaped) : (ofMachine machine).Dotless := by
  intro p c isChild
  have bounds := (ofMachine machine).child_bounds isChild
  obtain ⟨above, listed⟩ := exists_listed shaped (Nat.lt_trans bounds.1 bounds.2)
  obtain ⟨child, isDeclared, declared, childListed, isKey, _⟩ :=
    Layout.exists_of_mem_left (children_of_listed shaped listed) isChild
  have allowed := (shaped above (List.mem_of_getElem? listed)).keys child isDeclared
  obtain ⟨filled, noDot, _⟩ := Layout.keyAllowed_iff.1 allowed
  rw [(node_of_listed shaped childListed).key, isKey]
  exact ⟨filled, noDot⟩

end Machine

end StateTree

namespace MachineSpec

variable {machine : MachineSpec} {definition : Definition}

theorem shaped_of_build (built : machine.build = .ok definition) : machine.Shaped := by
  obtain ⟨noProblems, _⟩ := build_eq_ok_iff.1 built
  exact errors_eq_nil_iff_shaped.1 (problems_eq_nil_iff.1 noProblems).2.1

theorem dotless_of_build (built : machine.build = .ok definition) : definition.Dotless := by
  obtain ⟨_, rfl⟩ := build_eq_ok_iff.1 built
  exact StateTree.dotless_ofMachine (shaped_of_build built)

end MachineSpec

end Statechart
