import Statechart.Proofs.Selection
import Mathlib.Data.List.Induction

/-!
# Handlers

Which states have a say in what an event does. Selection starts from the active leaves, and
every active state of a legal configuration has one within it. A transition that is chosen is
dropped only in favour of another, so an event takes some transition exactly if some active
state handles it.
-/

namespace Statechart

namespace Definition

variable {definition : Definition} {guards : String → Option Guard} {active : Configuration}
variable {context : Context} {event : String} {n : Nat} {t : Transition}
variable {kept transitions : List Transition} {leaves : List Nat}

/-- A state declares a candidate for an event that no guard holds back. -/
def Handles (definition : Definition) (guards : String → Option Guard) (context : Context)
    (event : String) (n : Nat) : Prop :=
  ∃ candidates t, definition.candidates? n event = some candidates ∧ t ∈ candidates ∧
    (t.guard = none ∨
      ∃ name guard, t.guard = some name ∧ guards name = some guard ∧ guard context event = true)

theorem passes_iff : passes guards context event t = true ↔
    t.guard = none ∨
      ∃ name guard, t.guard = some name ∧ guards name = some guard ∧
        guard context event = true := by
  unfold passes
  cases t.guard with
  | none => simp
  | some name => simp [Option.any_eq_true]

theorem candidateOf?_ne_none_iff :
    definition.candidateOf? guards context event n ≠ none ↔
      definition.Handles guards context event n := by
  rw [Option.ne_none_iff_isSome, candidateOf?, List.find?_isSome, Handles]
  cases definition.candidates? n event with
  | none => simp
  | some candidates => simp [passes_iff]

/-- A leaf chooses nothing if neither it nor any state above it handles the event. -/
theorem chosenBy?_eq_none_iff {leaf : Nat} :
    definition.chosenBy? guards context event leaf = none ↔
      ∀ n, definition.Within leaf n → ¬ definition.Handles guards context event n := by
  simp only [chosenBy?, List.findSome?_eq_none_iff, ← candidateOf?_ne_none_iff, not_not]
  refine forall_congr' fun n => imp_congr_left ?_
  rw [List.mem_cons, eq_comm]
  rfl

/-- What has been chosen is not given up when more leaves choose. -/
theorem foldl_choose_eq_nil_iff {choose : Nat → Option Transition} {chosen : List Transition} :
    leaves.foldl (fun chosen leaf =>
        match choose leaf with
        | some t => if t ∈ chosen then chosen else chosen ++ [t]
        | none => chosen) chosen = [] ↔
      chosen = [] ∧ ∀ leaf ∈ leaves, choose leaf = none := by
  induction leaves generalizing chosen with
  | nil => simp
  | cons leaf rest ih =>
      rw [List.foldl_cons, ih, List.forall_mem_cons]
      cases choose leaf with
      | none => simp
      | some t =>
          by_cases before : t ∈ chosen
          · simp [before, List.ne_nil_of_mem before]
          · simp [before]

theorem enabled_eq_nil_iff :
    definition.enabled guards active context event = [] ↔
      ∀ leaf ∈ Configuration.leaves definition.toStateTree active,
        definition.chosenBy? guards context event leaf = none :=
  foldl_choose_eq_nil_iff.trans (and_iff_right rfl)

/-- A transition is dropped only if another is kept. -/
theorem consider_ne_nil : definition.consider active kept t ≠ [] := by
  simp only [consider]
  split
  · simp
  · next stands =>
    simp only [List.all_eq_true, not_forall] at stands
    obtain ⟨other, isOpposed, _⟩ := stands
    exact List.ne_nil_of_mem (List.mem_filter.1 isOpposed).1

theorem removeConflicts_eq_nil_iff :
    definition.removeConflicts active transitions = [] ↔ transitions = [] := by
  constructor
  · intro nothing
    cases transitions using List.reverseRecOn with
    | nil => rfl
    | append_singleton earlier last =>
        rw [removeConflicts, List.foldl_append] at nothing
        exact absurd nothing consider_ne_nil
  · rintro rfl
    rfl

end Definition

namespace Definition.WellFormed

variable {definition : Definition} {active : Configuration} {n : Nat}
variable (wellFormed : definition.WellFormed)
variable (legal : Configuration.Legal definition.toStateTree active)

include wellFormed legal

/-- Within every active state there is an active leaf. -/
theorem exists_active_leaf (isActive : n ∈ active) :
    ∃ leaf ∈ Configuration.leaves definition.toStateTree active, definition.Within leaf n := by
  induction n using definition.toStateTree.induction_down with
  | step n ih =>
      have through : ∀ c ∈ definition.children n, c ∈ active →
          ∃ leaf ∈ Configuration.leaves definition.toStateTree active,
            definition.Within leaf n := by
        intro c isChild childActive
        obtain ⟨leaf, isLeaf, within⟩ := ih c isChild childActive
        exact ⟨leaf, isLeaf, .inr (within.below (wellFormed.linked.child_below isChild))⟩
      have itself : definition.isLeaf n = true →
          ∃ leaf ∈ Configuration.leaves definition.toStateTree active,
            definition.Within leaf n := fun isLeaf =>
        ⟨n, List.mem_filter.2 ⟨StateSet.mem_toList.2 isActive, isLeaf⟩, .inl rfl⟩
      cases kind : definition.kind n with
      | atomic => exact itself (congrArg StateKind.isLeaf kind)
      | final => exact itself (congrArg StateKind.isLeaf kind)
      | compound =>
          obtain ⟨c, isChild, childActive, _⟩ := legal.compound isActive kind
          exact through c isChild childActive
      | parallel =>
          obtain ⟨c, isChild⟩ := List.exists_mem_of_ne_nil _ (wellFormed.regions kind)
          exact through c isChild (legal.parallel isActive kind c isChild)

/-- An event takes some transition exactly if some active state handles it. -/
theorem select_ne_nil_iff {guards : String → Option Guard} {context : Context} {event : String} :
    definition.select guards active context event ≠ [] ↔
      ∃ n ∈ active, definition.Handles guards context event n := by
  rw [select, ne_eq, removeConflicts_eq_nil_iff, enabled_eq_nil_iff]
  simp only [chosenBy?_eq_none_iff, not_forall, not_not, exists_prop]
  constructor
  · rintro ⟨leaf, isLeaf, n, within, handles⟩
    have leafActive := StateSet.mem_toList.1 (List.mem_filter.1 isLeaf).1
    exact ⟨n, legal.above_within leafActive within, handles⟩
  · rintro ⟨n, isActive, handles⟩
    obtain ⟨leaf, isLeaf, within⟩ := wellFormed.exists_active_leaf legal isActive
    exact ⟨leaf, isLeaf, n, within, handles⟩

end Definition.WellFormed

end Statechart
