import Statechart.Proofs.Plan
import Statechart.Step.Selection
import Mathlib.Data.List.Pairwise

/-!
# What selection keeps

The transitions that an event takes in a legal configuration can be taken together: each
is declared by an active state, no two exit a state in common, and so can a delayed
transition of an active state on its own.
-/

namespace Statechart

namespace Definition

open StateTree

variable {definition : Definition} {guards : String → Option Guard} {active : Configuration}
variable {context : Context} {event : String} {n : Nat} {t u : Transition}
variable {kept transitions : List Transition}

/-- A transition that a leaf chooses is declared by the leaf or by a state above it. -/
theorem declared_of_chosenBy? {leaf : Nat}
    (chosen : definition.chosenBy? guards context event leaf = some t) :
    ∃ n, definition.Within leaf n ∧ t ∈ definition.transitions n := by
  obtain ⟨n, above, found⟩ := List.exists_of_findSome?_eq_some chosen
  refine ⟨n, (List.mem_cons.1 above).imp Eq.symm id, ?_⟩
  have isCandidate := List.mem_of_find?_eq_some found
  unfold candidates? at isCandidate
  cases entry : (definition.behaviour n).on.lookup event with
  | none => simp [entry] at isCandidate
  | some candidates =>
      obtain ⟨before, after, split, _⟩ := List.lookup_eq_some_iff.1 entry
      simp only [entry, Option.getD_some] at isCandidate
      refine List.mem_append_left _ (List.mem_flatMap.2 ⟨(event, candidates), ?_, isCandidate⟩)
      simp [split]

theorem chosen_of_enabled (isEnabled : t ∈ definition.enabled guards active context event) :
    ∃ leaf ∈ active, definition.chosenBy? guards context event leaf = some t := by
  revert t
  unfold enabled
  refine List.foldlRecOn _ _ (motive := fun chosen => ∀ {t : Transition}, t ∈ chosen →
    ∃ leaf ∈ active, definition.chosenBy? guards context event leaf = some t) (by simp) ?_
  intro chosen earlier leaf isLeaf t member
  split at member
  · next transition isChosen =>
    split at member
    · exact earlier member
    · rcases List.mem_append.1 member with before | last
      · exact earlier before
      · obtain rfl := List.mem_singleton.1 last
        exact ⟨leaf, StateSet.mem_toList.1 (List.mem_filter.1 isLeaf).1, isChosen⟩
  · exact earlier member

theorem conflicts_iff :
    definition.conflicts active t u = true ↔
      ∃ n ∈ active, definition.Touches t n ∧ definition.Touches u n := by
  rw [conflicts, Bool.not_eq_true', ← Bool.not_eq_true, StateSet.isDisjoint_iff]
  simp only [mem_exitSet, not_and, not_forall, not_not, exists_prop]
  constructor
  · rintro ⟨n, ⟨isActive, touches⟩, _, alsoTouches⟩
    exact ⟨n, isActive, touches, alsoTouches⟩
  · rintro ⟨n, isActive, touches, alsoTouches⟩
    exact ⟨n, ⟨isActive, touches⟩, isActive, alsoTouches⟩

/-- The two transitions exit no state in common. -/
def Apart (definition : Definition) (active : Configuration) (t u : Transition) : Prop :=
  definition.conflicts active t u = false

instance : Std.Symm (definition.Apart active) where
  symm t u apart := by
    unfold Apart at *
    rw [← Bool.not_eq_true, conflicts_iff] at *
    rintro ⟨n, isActive, touches, alsoTouches⟩
    exact apart ⟨n, isActive, alsoTouches, touches⟩

/-- A transition is dropped, or it displaces those that it conflicts with. -/
theorem consider_eq_or (definition : Definition) (active : Configuration)
    (kept : List Transition) (t : Transition) :
    definition.consider active kept t = kept ∨
      definition.consider active kept t =
        kept.filter (fun other => !definition.conflicts active t other) ++ [t] := by
  simp only [consider]
  split
  · exact .inr rfl
  · exact .inl rfl

theorem mem_of_mem_consider (member : u ∈ definition.consider active kept t) :
    u ∈ kept ∨ u = t := by
  rcases definition.consider_eq_or active kept t with same | displaced
  · rw [same] at member
    exact .inl member
  · rw [displaced] at member
    rcases List.mem_append.1 member with before | last
    · exact .inl (List.mem_filter.1 before).1
    · exact .inr (List.mem_singleton.1 last)

/-- Whether the new transition displaces others or is dropped, no conflict is left. -/
theorem apart_consider (apart : kept.Pairwise (definition.Apart active)) :
    (definition.consider active kept t).Pairwise (definition.Apart active) := by
  rcases definition.consider_eq_or active kept t with same | displaced
  · rw [same]
    exact apart
  · rw [displaced, List.pairwise_append]
    refine ⟨apart.filter _, List.pairwise_singleton _ _, fun u before v last => ?_⟩
    obtain rfl := List.mem_singleton.1 last
    have noConflict := (List.mem_filter.1 before).2
    exact symm (show definition.Apart active v u by simpa [Apart] using noConflict)

theorem removeConflicts_spec :
    (definition.removeConflicts active transitions).Pairwise (definition.Apart active) ∧
      ∀ t ∈ definition.removeConflicts active transitions, t ∈ transitions := by
  unfold removeConflicts
  refine List.foldlRecOn _ _ (motive := fun kept : List Transition =>
    kept.Pairwise (definition.Apart active) ∧ ∀ t ∈ kept, t ∈ transitions) (by simp) ?_
  rintro kept ⟨apart, subset⟩ t member
  refine ⟨apart_consider apart, fun u isKept => ?_⟩
  rcases mem_of_mem_consider isKept with before | rfl
  · exact subset u before
  · exact member

theorem eq_of_apart (apart : transitions.Pairwise (definition.Apart active))
    (first : t ∈ transitions) (second : u ∈ transitions) (isActive : n ∈ active)
    (touches : definition.Touches t n) (alsoTouches : definition.Touches u n) : t = u := by
  by_contra different
  have noConflict := apart.forall first second different
  rw [Apart, ← Bool.not_eq_true, conflicts_iff] at noConflict
  exact noConflict ⟨n, isActive, touches, alsoTouches⟩

/-- A transition that an event takes is declared by an active state or by one above it. -/
theorem exists_declared_of_select (selected : t ∈ definition.select guards active context event) :
    ∃ leaf ∈ active, ∃ n, definition.Within leaf n ∧ t ∈ definition.transitions n := by
  obtain ⟨leaf, isActive, chosen⟩ := chosen_of_enabled (removeConflicts_spec.2 t selected)
  exact ⟨leaf, isActive, declared_of_chosenBy? chosen⟩

namespace WellFormed

variable (wellFormed : definition.WellFormed)
variable (legal : Configuration.Legal definition.toStateTree active)

include wellFormed legal

/-- A transition that an event takes is declared by its source, which is active. -/
theorem declared_of_select (selected : t ∈ definition.select guards active context event) :
    t.source ∈ active ∧ t ∈ definition.transitions t.source := by
  obtain ⟨leaf, isActive, n, within, declared⟩ := exists_declared_of_select selected
  obtain rfl := wellFormed.source declared
  exact ⟨legal.above_within isActive within, declared⟩

/-- Whatever event comes, the transitions that it takes can be taken together. -/
theorem compatible_select :
    definition.Compatible active (definition.select guards active context event) where
  linked := wellFormed.linked
  legal := legal
  source selected := (wellFormed.declared_of_select legal selected).1
  target selected := wellFormed.target (wellFormed.declared_of_select legal selected).2
  apart := eq_of_apart removeConflicts_spec.1

theorem compatible_singleton (declared : t ∈ definition.transitions n) (isActive : n ∈ active) :
    definition.Compatible active [t] where
  linked := wellFormed.linked
  legal := legal
  source member := by
    obtain rfl := List.mem_singleton.1 member
    exact wellFormed.source declared ▸ isActive
  target member := by
    obtain rfl := List.mem_singleton.1 member
    exact wellFormed.target declared
  apart first second _ _ _ :=
    (List.mem_singleton.1 first).trans (List.mem_singleton.1 second).symm

end WellFormed

end Definition

end Statechart
