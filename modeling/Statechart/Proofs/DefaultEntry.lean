import Mathlib
import Statechart.Proofs.Completion

/-!
# Default entry

What is entered with a state by default is found in two ways: on the way down from the state,
as a machine does when it starts, or from a list of states that may still lack a child, as a
step does. The list runs out whichever of its states is looked at next, and what has been
entered then is what the way down finds.
-/

namespace Statechart

namespace Definition

variable {definition : Definition} {retained entering : StateSet} {pending : List Nat}
variable {n m c : Nat}

/-- Some pending state brings in the children that it lacks. They are pending in its place. -/
inductive Turn (definition : Definition) (retained : StateSet) :
    StateSet × List Nat → StateSet × List Nat → Prop
  | take {entering : StateSet} {pending later : List Nat} {n : Nat} (isPending : n ∈ pending)
      (listed : later.Perm (definition.missing retained entering n ++ pending.erase n)) :
      Turn definition retained (entering, pending)
        (entering.insertAll (definition.missing retained entering n), later)

/-- A turn enters new states of the tree, or leaves fewer states pending. -/
theorem Turn.decreases {before after : StateSet × List Nat}
    (turn : definition.Turn retained before after) :
    Prod.Lex (· < ·) (· < ·) (definition.absent after.1, after.2.length)
      (definition.absent before.1, before.2.length) := by
  cases turn with
  | @take entering pending later n isPending listed =>
      cases isMissing : definition.missing retained entering n with
      | nil =>
          rw [isMissing, List.nil_append] at listed
          have fewer : later.length < pending.length := by
            rw [listed.length_eq, List.length_erase_of_mem isPending]
            have := List.length_pos_of_mem isPending
            omega
          exact .right _ fewer
      | cons c others =>
          have lacksChild : c ∈ definition.missing retained entering n := by simp [isMissing]
          obtain ⟨isChild, isNew⟩ := definition.missing_spec lacksChild
          rw [← isMissing]
          exact .left _ _ (definition.absent_lt (definition.child_bounds isChild).2 isNew
            (StateSet.mem_insertAll.2 (.inl lacksChild))
            fun m member => StateSet.mem_insertAll.2 (.inr member))

/-- Turns cannot be taken forever. -/
theorem wellFounded_turn (definition : Definition) (retained : StateSet) :
    WellFounded fun later earlier => definition.Turn retained earlier later :=
  Subrelation.wf (fun turn => turn.decreases)
    (InvImage.wf (fun state : StateSet × List Nat => (definition.absent state.1, state.2.length))
      (Prod.lex Nat.lt_wfRel Nat.lt_wfRel).wf)

/-- The worklist takes one turn after the other. -/
theorem turns_completeEntry (definition : Definition) (retained entering : StateSet)
    (pending : List Nat) :
    Relation.ReflTransGen (definition.Turn retained) (entering, pending)
      (definition.completeEntry retained entering pending, []) := by
  fun_induction definition.completeEntry retained entering pending with
  | case1 entering => exact .refl
  | case2 entering n rest lacking ih =>
      refine .head (.take (.head _) ?_) ih
      rw [List.erase_cons_head]
      exact (List.reverse_perm _).append_right rest

theorem within_of_mem_defaultEntry (linked : definition.toStateTree.Linked)
    (entered : m ∈ definition.defaultEntry n) : definition.Within m n := by
  induction m using Nat.strongRecOn with
  | ind m ih =>
      rcases mem_defaultEntry_iff.1 entered with rfl | ⟨p, above, isDefault⟩
      · exact .inl rfl
      · have isChild := defaultChildren_subset isDefault
        have within := ih p (definition.child_bounds isChild).1 above
        exact .inr ((linked.child_below isChild).of_within within)

/-- Of the children of a state that is entered by default, its default children are entered. -/
theorem mem_defaultEntry_child (linked : definition.toStateTree.Linked)
    (entered : m ∈ definition.defaultEntry n) (isChild : c ∈ definition.children m) :
    c ∈ definition.defaultEntry n ↔ c ∈ definition.defaultChildren m := by
  constructor
  · intro childEntered
    rcases mem_defaultEntry_iff.1 childEntered with rfl | ⟨p, _, isDefault⟩
    · exact absurd ((linked.child_below isChild).of_within
        (within_of_mem_defaultEntry linked entered)) StateTree.not_below_self
    · have isParent := linked.parent_iff.2 (defaultChildren_subset isDefault)
      obtain rfl := Option.some.inj (isParent.symm.trans (linked.parent_iff.2 isChild))
      exact isDefault
  · exact fun isDefault => mem_defaultEntry_iff.2 (.inr ⟨m, entered, isDefault⟩)

/-- Some of what is entered with a state by default, and the states whose default children may
still be missing. -/
structure Descending (definition : Definition) (n : Nat) (state : StateSet × List Nat) :
    Prop where
  first : n ∈ state.1
  listed : ∀ m ∈ state.2, m ∈ state.1
  default : ∀ m ∈ state.1, m ∈ definition.defaultEntry n
  complete : ∀ m ∈ state.1, m ∈ state.2 ∨ ∀ c ∈ definition.defaultChildren m, c ∈ state.1

theorem descending_singleton (definition : Definition) (n : Nat) :
    definition.Descending n (.ofList [n], [n]) where
  first := StateSet.mem_ofList.2 (.head _)
  listed m member := StateSet.mem_ofList.2 member
  default m member := by
    obtain rfl := List.mem_singleton.1 (StateSet.mem_ofList.1 member)
    exact mem_defaultEntry_self
  complete m member := .inl (StateSet.mem_ofList.1 member)

section

variable (linked : definition.toStateTree.Linked)
variable (apart : ∀ m ∈ retained, ¬ definition.Within m n)

include linked apart

/-- Where nothing of the subtree is retained, a state lacks its default children and no others,
unless they are entered. -/
theorem Descending.brings (descending : definition.Descending n (entering, pending))
    (entered : m ∈ entering) (isDefault : c ∈ definition.defaultChildren m) :
    c ∈ entering.insertAll (definition.missing retained entering m) := by
  have isChild := defaultChildren_subset isDefault
  have within := within_of_mem_defaultEntry linked (descending.default m entered)
  have notRetained : ∀ d ∈ definition.children m, d ∉ retained := fun d isChild isRetained =>
    apart d isRetained (.inr ((linked.child_below isChild).of_within within))
  rw [StateSet.mem_insertAll, Decidable.or_iff_not_imp_right]
  intro notEntered
  cases kind : definition.kind m with
  | compound =>
      have isInitial : definition.initial? m = some c := by
        simpa [defaultChildren, kind, Option.mem_toList] using isDefault
      refine (mem_missing_of_compound kind).2 ⟨isInitial, fun d isChild =>
        ⟨notRetained d isChild, fun childEntered => ?_⟩⟩
      -- the only child that may be entered is the initial one
      have alsoDefault := (mem_defaultEntry_child linked (descending.default m entered) isChild).1
        (descending.default d childEntered)
      rw [defaultChildren_of_initial kind isInitial, List.mem_singleton] at alsoDefault
      exact notEntered (alsoDefault ▸ childEntered)
  | parallel =>
      exact (mem_missing_of_parallel kind).2 ⟨isChild, notRetained c isChild, notEntered⟩
  | atomic => simp [defaultChildren, kind] at isDefault
  | final => simp [defaultChildren, kind] at isDefault

/-- Every turn goes on with the descent, whichever state it takes. -/
theorem Turn.descending {before after : StateSet × List Nat}
    (turn : definition.Turn retained before after)
    (descending : definition.Descending n before) : definition.Descending n after := by
  cases turn with
  | @take entering pending later taken isPending isListed =>
      have entered := descending.listed taken isPending
      have grows : ∀ m ∈ entering,
          m ∈ entering.insertAll (definition.missing retained entering taken) :=
        fun m member => StateSet.mem_insertAll.2 (.inr member)
      refine ⟨grows n descending.first, fun m member => ?_, fun m member => ?_,
        fun m member => ?_⟩
      · rcases List.mem_append.1 (isListed.mem_iff.1 member) with isMissing | before
        · exact StateSet.mem_insertAll.2 (.inl isMissing)
        · exact grows m (descending.listed m (List.mem_of_mem_erase before))
      · rcases StateSet.mem_insertAll.1 member with isMissing | before
        · exact mem_defaultEntry_iff.2
            (.inr ⟨taken, descending.default taken entered, missing_subset isMissing⟩)
        · exact descending.default m before
      · rcases StateSet.mem_insertAll.1 member with isMissing | before
        · exact .inl (isListed.mem_iff.2 (List.mem_append_left _ isMissing))
        · by_cases same : m = taken
          · subst same
            exact .inr fun c isDefault => descending.brings linked apart entered isDefault
          · rcases descending.complete m before with stillPending | complete
            · exact .inl (isListed.mem_iff.2
                (List.mem_append_right _ ((List.mem_erase_of_ne same).2 stillPending)))
            · exact .inr fun c isDefault => grows c (complete c isDefault)

theorem Descending.turns {before after : StateSet × List Nat}
    (descending : definition.Descending n before)
    (turns : Relation.ReflTransGen (definition.Turn retained) before after) :
    definition.Descending n after := by
  induction turns with
  | refl => exact descending
  | tail _ turn ih => exact turn.descending linked apart ih

omit linked apart in
/-- Once no state is pending, all that is entered by default is there. -/
theorem Descending.eq_of_nil (descending : definition.Descending n (entering, [])) :
    entering = .ofList (definition.defaultEntry n) := by
  ext m
  rw [StateSet.mem_ofList]
  refine ⟨descending.default m, fun entered => ?_⟩
  induction m using Nat.strongRecOn with
  | ind m ih =>
      rcases mem_defaultEntry_iff.1 entered with rfl | ⟨p, above, isDefault⟩
      · exact descending.first
      · have before := (definition.child_bounds (defaultChildren_subset isDefault)).1
        have complete := descending.complete p (ih p before above)
        exact complete.resolve_left List.not_mem_nil m isDefault

/-- Where turns end they end alike. -/
theorem eq_of_turns {last : StateSet × List Nat}
    (turns : Relation.ReflTransGen (definition.Turn retained) (.ofList [n], [n]) last)
    (noTurn : ∀ next, ¬ definition.Turn retained last next) :
    last = (.ofList (definition.defaultEntry n), []) := by
  obtain ⟨entering, pending⟩ := last
  have descending := (descending_singleton definition n).turns linked apart turns
  cases pending with
  | cons m rest => exact absurd (.take (.head _) (.refl _)) (noTurn _)
  | nil => rw [descending.eq_of_nil]

end

/-- What lies within a state that is entered by default is entered with it. -/
theorem mem_defaultEntry_of_within (linked : definition.toStateTree.Linked) {first : Nat}
    (entered : n ∈ definition.defaultEntry first) (within : definition.Within m n) :
    m ∈ definition.defaultEntry first ↔ m ∈ definition.defaultEntry n := by
  induction m using Nat.strongRecOn with
  | ind m ih =>
      rcases within with rfl | below
      · exact iff_of_true entered mem_defaultEntry_self
      · obtain ⟨p, isParent, within⟩ := StateTree.below_iff.1 below
        have isChild := linked.parent_iff.1 isParent
        have above := ih p (definition.parent_lt isParent) within
        -- both ways come through the parent
        have through : ∀ {k : Nat}, definition.Within p k → (m ∈ definition.defaultEntry k ↔
            p ∈ definition.defaultEntry k ∧ m ∈ definition.defaultChildren p) := by
          intro k withinToo
          refine ⟨fun isEntered => ?_, fun ⟨isEntered, isDefault⟩ =>
            mem_defaultEntry_iff.2 (.inr ⟨p, isEntered, isDefault⟩)⟩
          rcases mem_defaultEntry_iff.1 isEntered with rfl | ⟨q, qEntered, isDefault⟩
          · exact absurd ((StateTree.below_of_parent isParent).of_within withinToo)
              StateTree.not_below_self
          · have alsoParent := linked.parent_iff.2 (defaultChildren_subset isDefault)
            obtain rfl := Option.some.inj (isParent.symm.trans alsoParent)
            exact ⟨qEntered, isDefault⟩
        rw [through (within.trans (within_of_mem_defaultEntry linked entered)), through within,
          above]

/-- A state is entered in a step as it is in the initial configuration. Where nothing of its
subtree is retained, the worklist that holds the state runs out, whichever of its states are
looked at first, and has then entered what the way down from the state enters: of every compound
state just the initial child, and of every parallel state all children. Where the state is
active initially, these are the states of its subtree that are active initially. -/
theorem entered_by_default {machine : MachineSpec} (built : machine.build = .ok definition)
    (apart : ∀ m ∈ retained, ¬ definition.Within m n) :
    (WellFounded fun later earlier => definition.Turn retained earlier later) ∧
      (∀ last, Relation.ReflTransGen (definition.Turn retained) (.ofList [n], [n]) last →
        (∀ next, ¬ definition.Turn retained last next) →
        last = (.ofList (definition.defaultEntry n), [])) ∧
      definition.completeEntry retained (.ofList [n]) [n] =
        .ofList (definition.defaultEntry n) ∧
      (∀ m ∈ definition.completeEntry retained (.ofList [n]) [n],
        (definition.kind m = .compound → ∃ initial, definition.initial? m = some initial ∧
          ∀ c ∈ definition.children m,
            c ∈ definition.completeEntry retained (.ofList [n]) [n] ↔ c = initial) ∧
        (definition.kind m = .parallel → ∀ c ∈ definition.children m,
          c ∈ definition.completeEntry retained (.ofList [n]) [n])) ∧
      (n ∈ definition.initialConfiguration → ∀ m, definition.Within m n →
        (m ∈ definition.initialConfiguration ↔
          m ∈ definition.completeEntry retained (.ofList [n]) [n])) := by
  have wellFormed := MachineSpec.wellFormed_of_build built
  have linked := wellFormed.linked
  have noTurn : ∀ set next, ¬ definition.Turn retained (set, []) next := by
    intro set next turn
    cases turn with
    | take isPending => cases isPending
  have sameSet : definition.completeEntry retained (.ofList [n]) [n] =
      .ofList (definition.defaultEntry n) :=
    (Prod.mk.inj (eq_of_turns linked apart (turns_completeEntry definition retained _ _)
      (noTurn _))).1
  have mem_iff : ∀ {m : Nat}, m ∈ definition.completeEntry retained (.ofList [n]) [n] ↔
      m ∈ definition.defaultEntry n := by
    intro m
    rw [sameSet, StateSet.mem_ofList]
  refine ⟨wellFounded_turn definition retained, fun last => eq_of_turns linked apart, sameSet,
    fun m entered => ⟨fun isCompound => ?_, fun isParallel c isChild => ?_⟩,
    fun isInitial m within => ?_⟩
  · obtain ⟨initial, isInitial⟩ := wellFormed.initial isCompound
    refine ⟨initial, isInitial, fun c isChild => ?_⟩
    rw [mem_iff, mem_defaultEntry_child linked (mem_iff.1 entered) isChild,
      defaultChildren_of_initial isCompound isInitial, List.mem_singleton]
  · rw [mem_iff, mem_defaultEntry_child linked (mem_iff.1 entered) isChild]
    simpa [defaultChildren, isParallel] using isChild
  · rw [mem_iff, mem_initialConfiguration]
    exact mem_defaultEntry_of_within linked (mem_initialConfiguration.1 isInitial) within

end Definition

namespace MachineSpec

/-- With the studio on, its light is dim and its sound mute. -/
theorem studio_goes_on :
    (∀ m ∈ StateSet.ofList [StateTree.root], ¬ studio.resolved.Within m 2) ∧
      studio.resolved.completeEntry (.ofList [StateTree.root]) (.ofList [2]) [2] =
        .ofList [2, 3, 4, 6, 7] := by
  have apart : ∀ m ∈ StateSet.ofList [StateTree.root], ¬ studio.resolved.Within m 2 := by
    intro m isRoot
    obtain rfl := List.mem_singleton.1 (StateSet.mem_ofList.1 isRoot)
    rintro (other | below)
    · cases other
    · exact StateTree.not_below_root below
  obtain ⟨_, _, sameSet, _, _⟩ := Definition.entered_by_default studio_built apart
  exact ⟨apart, sameSet.trans (by cbv)⟩

end MachineSpec

end Statechart
