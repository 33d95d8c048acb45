import Statechart.Proofs.Build

/-!
# Legal configurations

What legality says of every active state, the ways down a legal configuration, and the
legality of the configuration in which a machine starts.
-/

namespace Statechart

namespace Configuration

open StateTree

/-- Legality, state by state. -/
structure Legal (tree : StateTree) (active : Configuration) : Prop where
  root : StateTree.root ∈ active
  inTree : ∀ {n}, n ∈ active → n < tree.size
  parent : ∀ {n p}, n ∈ active → tree.parent? n = some p → p ∈ active
  compound : ∀ {n}, n ∈ active → tree.kind n = .compound →
    ∃ c ∈ tree.children n, c ∈ active ∧ ∀ other ∈ tree.children n, other ∈ active → other = c
  parallel : ∀ {n}, n ∈ active → tree.kind n = .parallel → ∀ c ∈ tree.children n, c ∈ active

variable {tree : StateTree} {active : Configuration} {n c a : Nat}

theorem mem_activeChildren :
    c ∈ activeChildren tree active n ↔ c ∈ tree.children n ∧ c ∈ active := by
  simp [activeChildren, List.mem_filter, StateSet.contains_iff]

theorem length_eq_one_iff {list : List Nat} (distinct : list.Nodup) :
    list.length = 1 ↔ ∃ c ∈ list, ∀ other ∈ list, other = c := by
  constructor
  · intro single
    obtain ⟨c, rfl⟩ := List.length_eq_one_iff.1 single
    exact ⟨c, List.mem_singleton.2 rfl, fun other member => List.mem_singleton.1 member⟩
  · rintro ⟨c, member, same⟩
    match list, distinct with
    | [_], _ => rfl
    | first :: second :: rest, distinct =>
        have repeated : first = second :=
          (same first (.head _)).trans (same second (.tail _ (.head _))).symm
        simp [repeated] at distinct

theorem single_activeChild_iff (linked : tree.Linked) :
    (activeChildren tree active n).length = 1 ↔
      ∃ c ∈ tree.children n, c ∈ active ∧
        ∀ other ∈ tree.children n, other ∈ active → other = c := by
  have distinct : (activeChildren tree active n).Nodup := (linked.nodup_children n).filter _
  rw [length_eq_one_iff distinct]
  simp only [mem_activeChildren, and_assoc, and_imp]

theorem all_activeChildren_iff :
    (activeChildren tree active n).length = (tree.children n).length ↔
      ∀ c ∈ tree.children n, c ∈ active := by
  rw [activeChildren, List.length_filter_eq_length_iff]
  simp only [StateSet.contains_iff]

theorem isLegal_iff (linked : tree.Linked) : isLegal tree active = true ↔ Legal tree active := by
  simp only [isLegal, Bool.and_eq_true, StateSet.contains_iff, List.all_eq_true,
    StateSet.mem_toList, decide_eq_true_eq, Option.all_eq_true]
  constructor
  · rintro ⟨atRoot, each⟩
    refine ⟨atRoot, fun {n} isActive => (each n isActive).1.1,
      fun {n p} isActive => (each n isActive).1.2 p, fun {n} isActive isCompound => ?_,
      fun {n} isActive isParallel => ?_⟩
    · have children := (each n isActive).2
      simp only [isCompound, beq_iff_eq] at children
      exact (single_activeChild_iff linked).1 children
    · have children := (each n isActive).2
      simp only [isParallel, beq_iff_eq] at children
      exact all_activeChildren_iff.1 children
  · intro legal
    refine ⟨legal.root, fun n isActive => ⟨⟨legal.inTree isActive,
      fun p => legal.parent isActive⟩, ?_⟩⟩
    cases kind : tree.kind n with
    | compound => simpa using (single_activeChild_iff linked).2 (legal.compound isActive kind)
    | parallel => simpa using all_activeChildren_iff.2 (legal.parallel isActive kind)
    | atomic => rfl
    | final => rfl

namespace Legal

variable (legal : Legal tree active)

include legal

theorem above (isActive : n ∈ active) (below : tree.Below n a) : a ∈ active := by
  induction n using Nat.strongRecOn with
  | ind n ih =>
      obtain ⟨p, isParent, rfl | above⟩ := below_iff.1 below
      · exact legal.parent isActive isParent
      · exact ih p (tree.parent_lt isParent) (legal.parent isActive isParent) above

theorem above_within (isActive : n ∈ active) (within : tree.Within n a) : a ∈ active := by
  rcases within with rfl | below
  · exact isActive
  · exact legal.above isActive below

/-- Below an active compound state there is one active way down. -/
theorem unique_child {p q : Nat} (linked : tree.Linked) (isActive : n ∈ active)
    (isCompound : tree.kind n = .compound) (isChild : tree.parent? p = some n)
    (alsoChild : tree.parent? q = some n) (first : p ∈ active) (second : q ∈ active) : p = q := by
  obtain ⟨c, _, _, unique⟩ := legal.compound isActive isCompound
  exact (unique p (linked.parent_iff.1 isChild) first).trans
    (unique q (linked.parent_iff.1 alsoChild) second).symm

end Legal

end Configuration

namespace Definition

open StateTree

variable {definition : Definition} {n m c : Nat}

/-- The children that a state brings in by default. -/
def defaultChildren (definition : Definition) (n : Nat) : List Nat :=
  match definition.kind n with
  | .compound => (definition.initial? n).toList
  | .parallel => definition.children n
  | .atomic | .final => []

theorem defaultChildren_subset (isDefault : c ∈ definition.defaultChildren n) :
    c ∈ definition.children n := by
  unfold defaultChildren at isDefault
  split at isDefault
  · exact definition.initial_mem_children (Option.mem_toList.1 isDefault)
  · exact isDefault
  · simp at isDefault
  · simp at isDefault

theorem defaultChildren_of_initial {p : Nat} (isCompound : definition.kind p = .compound)
    (isInitial : definition.initial? p = some n) : definition.defaultChildren p = [n] := by
  simp [defaultChildren, isCompound, isInitial]

theorem defaultEntry_eq (n : Nat) :
    definition.defaultEntry n =
      n :: (definition.defaultChildren n).flatMap definition.defaultEntry := by
  rw [defaultEntry, defaultChildren]
  cases kind : definition.kind n with
  | compound =>
      simp only
      split
      · next initial isInitial => simp [isInitial]
      · next noInitial => simp [noInitial]
  | parallel =>
      simp only [List.flatMap_subtype, List.unattach_attach]
  | atomic => rfl
  | final => rfl

theorem mem_defaultEntry_self : n ∈ definition.defaultEntry n := by
  rw [defaultEntry_eq]
  exact .head _

theorem mem_defaultEntry_cons :
    m ∈ definition.defaultEntry n ↔
      m = n ∨ ∃ c ∈ definition.defaultChildren n, m ∈ definition.defaultEntry c := by
  rw [defaultEntry_eq, List.mem_cons, List.mem_flatMap]

/-- A state entered by default is the first one or a default child of another. -/
theorem mem_defaultEntry_iff :
    m ∈ definition.defaultEntry n ↔
      m = n ∨ ∃ p ∈ definition.defaultEntry n, m ∈ definition.defaultChildren p := by
  constructor
  · intro entered
    induction n using definition.toStateTree.induction_down with
    | step n ih =>
        rcases mem_defaultEntry_cons.1 entered with same | ⟨c, isDefault, below⟩
        · exact .inl same
        · right
          rcases ih c (defaultChildren_subset isDefault) below with rfl | ⟨p, above, isChild⟩
          · exact ⟨n, mem_defaultEntry_self, isDefault⟩
          · exact ⟨p, mem_defaultEntry_cons.2 (.inr ⟨c, isDefault, above⟩), isChild⟩
  · rintro (rfl | ⟨p, above, isChild⟩)
    · exact mem_defaultEntry_self
    · induction n using definition.toStateTree.induction_down with
      | step n ih =>
          rcases mem_defaultEntry_cons.1 above with rfl | ⟨c, isDefault, below⟩
          · exact mem_defaultEntry_cons.2 (.inr ⟨m, isChild, mem_defaultEntry_self⟩)
          · exact mem_defaultEntry_cons.2
              (.inr ⟨c, isDefault, ih c (defaultChildren_subset isDefault) below⟩)

theorem mem_initialConfiguration :
    m ∈ definition.initialConfiguration ↔ m ∈ definition.defaultEntry StateTree.root :=
  StateSet.mem_ofList

namespace WellFormed

variable (wellFormed : definition.WellFormed)

include wellFormed

/-- A machine starts in a legal configuration. -/
theorem legal_initialConfiguration :
    Configuration.Legal definition.toStateTree definition.initialConfiguration := by
  have active_child : ∀ {p c : Nat}, p ∈ definition.initialConfiguration →
      c ∈ definition.defaultChildren p → c ∈ definition.initialConfiguration :=
    fun isActive isDefault => mem_initialConfiguration.2 <|
      mem_defaultEntry_iff.2 (.inr ⟨_, mem_initialConfiguration.1 isActive, isDefault⟩)
  have active_parent : ∀ {p c : Nat}, c ∈ definition.initialConfiguration →
      definition.parent? c = some p →
      p ∈ definition.initialConfiguration ∧ c ∈ definition.defaultChildren p := by
    intro p c isActive isParent
    rcases mem_defaultEntry_iff.1 (mem_initialConfiguration.1 isActive) with
      rfl | ⟨q, above, isDefault⟩
    · simp [parent?_root] at isParent
    · have isOther := wellFormed.linked.parent_iff.2 (defaultChildren_subset isDefault)
      obtain rfl := Option.some.inj (isOther.symm.trans isParent)
      exact ⟨mem_initialConfiguration.2 above, isDefault⟩
  refine ⟨mem_initialConfiguration.2 mem_defaultEntry_self, fun {n} isActive => ?_,
    fun isActive isParent => (active_parent isActive isParent).1,
    fun {n} isActive isCompound => ?_, fun {n} isActive isParallel c isChild => ?_⟩
  · rcases mem_defaultEntry_iff.1 (mem_initialConfiguration.1 isActive) with
      rfl | ⟨q, _, isDefault⟩
    · exact definition.inhabited
    · exact (definition.child_bounds (defaultChildren_subset isDefault)).2
  · obtain ⟨c, isInitial⟩ := wellFormed.initial isCompound
    have only := defaultChildren_of_initial isCompound isInitial
    refine ⟨c, definition.initial_mem_children isInitial, active_child isActive (by simp [only]),
      fun other isChild otherActive => ?_⟩
    have isDefault := (active_parent otherActive (wellFormed.linked.parent_iff.2 isChild)).2
    simpa [only] using isDefault
  · exact active_child isActive (by simpa [defaultChildren, isParallel] using isChild)

end WellFormed

end Definition

end Statechart
