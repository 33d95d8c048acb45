import Statechart.Proofs.Layout

/-!
# Siblings

Where no key stands twice under a state of a specification, the children of every state
differ in their keys when the specification is laid out.
-/

namespace Statechart

namespace StateSpec

mutual
/-- At every level the children stand under distinct keys. -/
def Distinct : StateSpec → Prop
  | ⟨_, _, _, _, _, _, _, states⟩ => (states.map (·.1)).Nodup ∧ EachDistinct states

def EachDistinct : List (String × StateSpec) → Prop
  | [] => True
  | child :: rest => child.2.Distinct ∧ EachDistinct rest
end

mutual
def decideDistinct : (spec : StateSpec) → Decidable spec.Distinct
  | ⟨_, _, _, _, _, _, _, states⟩ =>
    have := decideEachDistinct states
    inferInstanceAs (Decidable ((states.map (·.1)).Nodup ∧ EachDistinct states))

def decideEachDistinct : (states : List (String × StateSpec)) → Decidable (EachDistinct states)
  | [] => isTrue trivial
  | child :: rest =>
    have := decideDistinct child.2
    have := decideEachDistinct rest
    inferInstanceAs (Decidable (child.2.Distinct ∧ EachDistinct rest))
end

instance : DecidablePred Distinct := decideDistinct

theorem eachDistinct_iff {states : List (String × StateSpec)} :
    EachDistinct states ↔ ∀ child ∈ states, child.2.Distinct := by
  induction states with
  | nil => simp [EachDistinct]
  | cons child rest ih => simp [EachDistinct, ih]

theorem distinct_iff {spec : StateSpec} :
    spec.Distinct ↔ (spec.states.map (·.1)).Nodup ∧ ∀ child ∈ spec.states, child.2.Distinct := by
  cases spec
  rw [Distinct, eachDistinct_iff]

end StateSpec

namespace Layout

/-- The keys in a stretch: its heads stand under distinct keys of a list, and so do the
children of every state. -/
structure Distinguished (keys : List String) (heads : List Nat) (start : Nat)
    (placed : List PlacedState) : Prop where
  headed : ∀ {n state}, n ∈ heads → At start placed n state → state.node.key ∈ keys
  apart : ∀ {n m state other}, n ∈ heads → m ∈ heads → At start placed n state →
    At start placed m other → state.node.key = other.node.key → n = m
  siblings : ∀ {p n m parent state other}, At start placed p parent → n ∈ parent.node.children →
    m ∈ parent.node.children → At start placed n state → At start placed m other →
    state.node.key = other.node.key → n = m

namespace Distinguished

variable {start : Nat} {outer : Option Nat}

theorem nil : Distinguished [] [] start [] where
  headed member := by cases member
  apart member := by cases member
  siblings stands := absurd stands not_at_nil

theorem append {key : String} {keys : List String} {head : Nat} {heads : List Nat}
    {first second : List PlacedState}
    (linkedFirst : Interlinked outer [head] start first)
    (linkedSecond : Interlinked outer heads (start + first.length) second)
    (left : Distinguished [key] [head] start first)
    (right : Distinguished keys heads (start + first.length) second) (isNew : key ∉ keys) :
    Distinguished (key :: keys) (head :: heads) start (first ++ second) := by
  have inFirst : ∀ {state}, At start (first ++ second) head state → At start first head state :=
    fun stands => linkedFirst.at_of_head partOf_append_left (.head _) stands
  have inSecond : ∀ {n state}, n ∈ heads → At start (first ++ second) n state →
      At (start + first.length) second n state :=
    fun member stands => linkedSecond.at_of_head partOf_append_right member stands
  have keyOfFirst : ∀ {state}, At start (first ++ second) head state → state.node.key = key :=
    fun stands => List.mem_singleton.1 (left.headed (.head _) (inFirst stands))
  have keyOfSecond : ∀ {n state}, n ∈ heads → At start (first ++ second) n state →
      state.node.key ∈ keys := fun member stands => right.headed member (inSecond member stands)
  refine ⟨fun {n state} member stands => ?_, fun {n m state other} first second stands alsoStands
    same => ?_, fun {p n m parent state other} above first second stands alsoStands same => ?_⟩
  · rcases List.mem_cons.1 member with rfl | later
    · exact List.mem_cons.2 (.inl (keyOfFirst stands))
    · exact .tail _ (keyOfSecond later stands)
  · rcases List.mem_cons.1 first with rfl | firstLater
    · rcases List.mem_cons.1 second with rfl | secondLater
      · rfl
      · exact absurd (keyOfFirst stands ▸ same ▸ keyOfSecond secondLater alsoStands) isNew
    · rcases List.mem_cons.1 second with rfl | secondLater
      · exact absurd (keyOfFirst alsoStands ▸ same ▸ keyOfSecond firstLater stands) isNew
      · exact right.apart firstLater secondLater (inSecond firstLater stands)
          (inSecond secondLater alsoStands) same
  · -- the children of a state stand in the same part as the state itself
    rcases at_append.1 above with above | above
    · exact left.siblings above first second
        (linkedFirst.at_of_child partOf_append_left above first stands)
        (linkedFirst.at_of_child partOf_append_left above second alsoStands) same
    · exact right.siblings above first second
        (linkedSecond.at_of_child partOf_append_right above first stands)
        (linkedSecond.at_of_child partOf_append_right above second alsoStands) same

theorem cons {key : String} {keys : List String} {state : PlacedState}
    {rest : List PlacedState} (isKey : state.node.key = key)
    (linked : Interlinked (some start) state.node.children (start + 1) rest)
    (below : Distinguished keys state.node.children (start + 1) rest) :
    Distinguished [key] [start] start (state :: rest) := by
  have isState : ∀ {other}, At start (state :: rest) start other → other = state :=
    fun stands => stands.unique (at_cons.2 (.inl ⟨rfl, rfl⟩))
  refine ⟨fun {n other} member stands => ?_, fun first second _ _ _ => ?_,
    fun {p n m parent first second} above isFirst isSecond stands alsoStands same => ?_⟩
  · obtain rfl := List.mem_singleton.1 member
    exact List.mem_singleton.2 ((congrArg (·.node.key) (isState stands)).trans isKey)
  · exact (List.mem_singleton.1 first).trans (List.mem_singleton.1 second).symm
  · rcases at_cons.1 above with ⟨rfl, rfl⟩ | above
    · exact below.apart isFirst isSecond (linked.at_of_head partOf_cons isFirst stands)
        (linked.at_of_head partOf_cons isSecond alsoStands) same
    · exact below.siblings above isFirst isSecond
        (linked.at_of_child partOf_cons above isFirst stands)
        (linked.at_of_child partOf_cons above isSecond alsoStands) same

theorem mono {keys more : List String} {heads : List Nat} {placed : List PlacedState}
    (distinguished : Distinguished keys heads start placed) (subset : ∀ key ∈ keys, key ∈ more) :
    Distinguished more heads start placed where
  headed member stands := subset _ (distinguished.headed member stands)
  apart := distinguished.apart
  siblings := distinguished.siblings

end Distinguished

mutual
theorem block_distinguished (key id : String) (parent : Option Nat) (depth start : Nat) :
    (spec : StateSpec) → spec.Distinct →
      Distinguished [key] [start] start (block key id parent depth start spec)
  | spec@⟨explicit, _, _, _, _, _, _, states⟩, distinct => by
      obtain ⟨keys, each⟩ := StateSpec.distinct_iff.1 distinct
      rw [block]
      refine Distinguished.cons rfl ?_ (?_ : Distinguished (states.map (·.1)) _ _ _)
      · split
        · exact .nil
        · exact blocksOf_interlinked _ start depth (start + 1) states
      · split
        · exact Distinguished.nil.mono (by simp)
        · exact blocksOf_distinguished _ start depth (start + 1) states keys
            (StateSpec.eachDistinct_iff.2 each)

theorem blocksOf_distinguished (parentId : String) (parent depth start : Nat) :
    (states : List (String × StateSpec)) → (states.map (·.1)).Nodup →
      StateSpec.EachDistinct states →
      Distinguished (states.map (·.1))
        (blockStarts start (blocksOf parentId parent depth start states)) start
        (blocksOf parentId parent depth start states).flatten
  | [], _, _ => by
      rw [blocksOf]
      exact .nil
  | child :: rest, keys, each => by
      obtain ⟨isNew, later⟩ := List.nodup_cons.1 keys
      obtain ⟨childDistinct, restDistinct⟩ := each
      rw [blocksOf]
      split
      · exact .append
          (block_interlinked child.1 (parentId ++ "." ++ child.1) (some parent) (depth + 1) start
            child.2)
          (blocksOf_interlinked parentId parent depth _ rest)
          (block_distinguished child.1 (parentId ++ "." ++ child.1) (some parent) (depth + 1) start
            child.2 childDistinct)
          (blocksOf_distinguished parentId parent depth _ rest later restDistinct) isNew
      · exact (blocksOf_distinguished parentId parent depth start rest later restDistinct).mono
          fun key member => .tail _ member
end

end Layout

namespace StateTree

open Layout

variable {machine : MachineSpec} {n m p : Nat}

variable (tree : StateTree) in
/-- The children of a state differ in their keys. -/
def Discrete : Prop :=
  ∀ {p n m : Nat}, n ∈ tree.children p → m ∈ tree.children p →
    (tree.node n).key = (tree.node m).key → n = m

theorem discrete_ofMachine (distinct : machine.root.Distinct) : (ofMachine machine).Discrete := by
  intro p n m first second same
  have boundsFirst := (ofMachine machine).child_bounds first
  have boundsSecond := (ofMachine machine).child_bounds second
  obtain ⟨parent, above⟩ := exists_at (Nat.lt_trans boundsFirst.1 boundsFirst.2)
  obtain ⟨state, stands⟩ := exists_at boundsFirst.2
  obtain ⟨other, alsoStands⟩ := exists_at boundsSecond.2
  rw [children, node_of_at above] at first second
  rw [node_of_at stands, node_of_at alsoStands] at same
  exact (block_distinguished _ _ _ _ _ _ distinct).siblings above first second stands alsoStands
    same

/-- Among distinct siblings a child is found under its own key. -/
theorem childByKey?_of_discrete {tree : StateTree} (discrete : tree.Discrete)
    (isChild : n ∈ tree.children p) : tree.childByKey? p (tree.node n).key = some n := by
  cases found : tree.childByKey? p (tree.node n).key with
  | none =>
      have differs := List.find?_eq_none.1 found n isChild
      simp at differs
  | some m =>
      have sameKey : (tree.node m).key = (tree.node n).key := by
        simpa using List.find?_some found
      exact congrArg some (discrete (tree.childByKey?_mem found) isChild sameKey)

end StateTree

end Statechart
