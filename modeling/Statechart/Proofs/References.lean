import Statechart.Proofs.Build
import Statechart.Routine
import Mathlib

/-!
# References

The names that a definition uses, each with the states that use it: the lists in which they
are collected are sorted, so that no pair stands in them twice. A registry is accepted if it
provides all of them; else it is told every pair that is missing, once.
-/

namespace Statechart

namespace Definition

variable {definition : Definition} {pair other : String × String}
variable {sorted pairs : List (String × String)} {names : Nat → List String}

theorem pairBefore_iff : pairBefore pair other = true ↔ toLex pair < toLex other := by
  simp [pairBefore, Prod.Lex.toLex_lt_toLex]

/-- Every pair stands before all later ones. -/
def Sorted (pairs : List (String × String)) : Prop :=
  pairs.Pairwise fun a b => toLex a < toLex b

theorem Sorted.nodup (isSorted : Sorted pairs) : pairs.Nodup :=
  isSorted.imp fun before => mt (congrArg toLex) before.ne

@[simp]
theorem mem_insertPair : other ∈ insertPair pair sorted ↔ other = pair ∨ other ∈ sorted := by
  induction sorted with
  | nil => simp [insertPair]
  | cons head rest ih =>
      rw [insertPair]
      split
      · simp
      · split
        · next same => simp [same]
        · simp [ih, or_left_comm]

theorem Sorted.insertPair (isSorted : Sorted sorted) : Sorted (insertPair pair sorted) := by
  induction sorted with
  | nil => simp [Definition.insertPair, Sorted]
  | cons head rest ih =>
      obtain ⟨first, others⟩ := List.pairwise_cons.1 isSorted
      rw [Definition.insertPair]
      split
      · next before =>
        have isBefore := pairBefore_iff.1 before
        refine List.pairwise_cons.2 ⟨fun other member => ?_, isSorted⟩
        rcases List.mem_cons.1 member with rfl | later
        · exact isBefore
        · exact isBefore.trans (first other later)
      · next notBefore =>
        split
        · exact isSorted
        · next different =>
          have isAfter : toLex head < toLex pair :=
            (lt_trichotomy (toLex pair) (toLex head)).resolve_left
              (mt pairBefore_iff.2 notBefore) |>.resolve_left (mt (toLex.injective ·) different)
          refine List.pairwise_cons.2 ⟨fun other member => ?_, ih others⟩
          rcases mem_insertPair.1 member with rfl | later
          · exact isAfter
          · exact first other later

/-- Whatever is collected, the collection is sorted. -/
theorem sorted_references (names : Nat → List String) : Sorted (definition.references names) :=
  List.foldlRecOn _ _ (motive := Sorted) .nil fun _ isSorted _ _ => isSorted.insertPair

theorem mem_foldl_insertPair :
    pair ∈ pairs.foldl (fun sorted next => insertPair next sorted) sorted ↔
      pair ∈ sorted ∨ pair ∈ pairs := by
  induction pairs generalizing sorted with
  | nil => simp
  | cons next rest ih => simp [ih, or_assoc, or_left_comm]

theorem mem_references {id name : String} :
    (name, id) ∈ definition.references names ↔
      ∃ n < definition.size, (definition.node n).id = id ∧ name ∈ names n := by
  simp only [references, mem_foldl_insertPair, List.not_mem_nil, false_or, List.mem_flatMap,
    List.mem_range, List.mem_map, Prod.mk.injEq]
  constructor
  · rintro ⟨n, inTree, _, uses, rfl, rfl⟩
    exact ⟨n, inTree, rfl, uses⟩
  · rintro ⟨n, inTree, rfl, uses⟩
    exact ⟨n, inTree, name, uses, rfl, rfl⟩

/-- An action that a state names: on entry, on exit, or for one of its transitions. -/
inductive UsesAction (definition : Definition) (n : Nat) (name : String) : Prop
  | entry (named : name ∈ (definition.behaviour n).entry)
  | exit (named : name ∈ (definition.behaviour n).exit)
  | candidate {event : String} {candidates : List Transition} {t : Transition}
      (declared : (event, candidates) ∈ (definition.behaviour n).on) (isCandidate : t ∈ candidates)
      (named : name ∈ t.actions)
  | delayed {delayed : DelayedTransition} (declared : delayed ∈ (definition.behaviour n).after)
      (named : name ∈ delayed.transition.actions)

/-- A guard that a state names for one of its transitions. -/
inductive UsesGuard (definition : Definition) (n : Nat) (name : String) : Prop
  | candidate {event : String} {candidates : List Transition} {t : Transition}
      (declared : (event, candidates) ∈ (definition.behaviour n).on) (isCandidate : t ∈ candidates)
      (named : t.guard = some name)
  | delayed {delayed : DelayedTransition} (declared : delayed ∈ (definition.behaviour n).after)
      (named : delayed.transition.guard = some name)

variable {n : Nat} {name : String}

theorem mem_actionNames : name ∈ definition.actionNames n ↔ definition.UsesAction n name := by
  simp only [actionNames, transitions, List.mem_append, List.mem_flatMap, List.mem_map]
  constructor
  · rintro ((named | named) | ⟨t, ⟨_, declared, isCandidate⟩ | ⟨_, declared, rfl⟩, named⟩)
    · exact .entry named
    · exact .exit named
    · exact .candidate declared isCandidate named
    · exact .delayed declared named
  · intro uses
    cases uses with
    | entry named => exact .inl (.inl named)
    | exit named => exact .inl (.inr named)
    | candidate declared isCandidate named =>
        exact .inr ⟨_, .inl ⟨_, declared, isCandidate⟩, named⟩
    | delayed declared named => exact .inr ⟨_, .inr ⟨_, declared, rfl⟩, named⟩

/-- A state names the actions of all its transitions. -/
theorem usesAction_of_transitions {t : Transition} (declared : t ∈ definition.transitions n)
    (named : name ∈ t.actions) : definition.UsesAction n name :=
  mem_actionNames.1 (List.mem_append_right _ (List.mem_flatMap.2 ⟨t, declared, named⟩))

/-- Guards are collected from the candidates of events: delayed transitions that are built
have none. -/
theorem mem_guardNames
    (unguarded : ∀ delayed ∈ (definition.behaviour n).after, delayed.transition.guard = none) :
    name ∈ definition.guardNames n ↔ definition.UsesGuard n name := by
  simp only [guardNames, List.mem_filterMap, List.mem_flatMap]
  constructor
  · rintro ⟨t, ⟨_, declared, isCandidate⟩, named⟩
    exact .candidate declared isCandidate named
  · intro uses
    cases uses with
    | candidate declared isCandidate named => exact ⟨_, ⟨_, declared, isCandidate⟩, named⟩
    | delayed declared named => cases (unguarded _ declared).symm.trans named

/-- The guard of a candidate for an event is one that the state names. -/
theorem usesGuard_of_candidates? {event : String} {candidates : List Transition} {t : Transition}
    (found : definition.candidates? n event = some candidates) (isCandidate : t ∈ candidates)
    (named : t.guard = some name) : definition.UsesGuard n name := by
  obtain ⟨before, after, split, _⟩ := List.lookup_eq_some_iff.1 found
  have declared : (event, candidates) ∈ (definition.behaviour n).on := by simp [split]
  exact .candidate declared isCandidate named

end Definition

namespace StateTree

theorem delayedOf?_guard {tree : StateTree} {n : Nat} {spec : DelayedSpec}
    {delayed : DelayedTransition} (found : tree.delayedOf? n spec = some delayed) :
    delayed.transition.guard = none := by
  unfold delayedOf? at found
  split at found
  · cases found
  · obtain ⟨target, _, rfl⟩ := Option.map_eq_some_iff.1 found
    rfl

end StateTree

namespace MachineSpec

variable {machine : MachineSpec} {definition : Definition} {n : Nat} {name : String}
variable (built : machine.build = .ok definition)

include built

/-- A delayed transition of a definition that is built asks no guard. -/
theorem unguarded_of_build :
    ∀ delayed ∈ (definition.behaviour n).after, delayed.transition.guard = none := by
  obtain ⟨noProblems, rfl⟩ := build_eq_ok_iff.1 built
  intro delayed declared
  rcases Nat.lt_or_ge n machine.resolved.size with inTree | outside
  · obtain ⟨spec, behaves, _⟩ := exists_declaration noProblems inTree
    rw [behaves] at declared
    obtain ⟨declaration, _, found⟩ := List.mem_filterMap.1 declared
    exact StateTree.delayedOf?_guard found
  · rw [behaviour_resolved_of_size_le outside] at declared
    cases declared

/-- Only the states of the tree name anything. -/
theorem lt_size_of_usesAction (uses : definition.UsesAction n name) : n < definition.size := by
  obtain ⟨_, rfl⟩ := build_eq_ok_iff.1 built
  by_contra outside
  have behaves := behaviour_resolved_of_size_le (Nat.le_of_not_lt outside)
  cases uses with
  | entry named | exit named => simp [behaves, default] at named
  | candidate declared | delayed declared => simp [behaves, default] at declared

theorem lt_size_of_usesGuard (uses : definition.UsesGuard n name) : n < definition.size := by
  obtain ⟨_, rfl⟩ := build_eq_ok_iff.1 built
  by_contra outside
  have behaves := behaviour_resolved_of_size_le (Nat.le_of_not_lt outside)
  cases uses with
  | candidate declared | delayed declared => simp [behaves, default] at declared

end MachineSpec

namespace DefinitionError

variable {errors : List DefinitionError} {error : DefinitionError}

theorem collect_eq_ok_iff : collect errors = .ok () ↔ errors = [] := by
  cases errors with
  | nil => simp [collect]
  | cons first rest => cases rest <;> simp [collect]

/-- What is reported together are the errors that there are, if none of them is a group. -/
theorem issues_of_collect (single : ∀ error ∈ errors, error.issues = [error])
    (isError : collect errors = .error error) : error.issues = errors := by
  cases errors with
  | nil => simp [collect] at isError
  | cons first rest =>
      cases rest with
      | nil =>
          obtain rfl : first = error := by simpa [collect] using isError
          exact single _ (.head _)
      | cons second rest =>
          obtain rfl : .multiple (first :: second :: rest) = error := by
            simpa [collect] using isError
          rfl

end DefinitionError

namespace Registry

variable {σ Listener : Type} {registry : Registry σ Listener} {definition : Definition}

/-- Everything that the states of a definition name is there. -/
structure Provides (registry : Registry σ Listener) (definition : Definition) : Prop where
  action : ∀ {n : Nat} {name : String}, definition.UsesAction n name →
    ∃ action, registry.action? name = some action
  guard : ∀ {n : Nat} {name : String}, definition.UsesGuard n name →
    ∃ guard, registry.guard? name = some guard

/-- An issue that says of a state and a name that the state uses it and nobody provides it. -/
def Lacks (registry : Registry σ Listener) (definition : Definition) : DefinitionError → Prop
  | .unknownAction id name =>
    (∃ n < definition.size, (definition.node n).id = id ∧ definition.UsesAction n name) ∧
      registry.action? name = none
  | .unknownGuard id name =>
    (∃ n < definition.size, (definition.node n).id = id ∧ definition.UsesGuard n name) ∧
      registry.guard? name = none
  | _ => False

variable {name id : String} {issue : DefinitionError}

theorem hasAction_eq_false_iff : registry.hasAction name = false ↔ registry.action? name = none := by
  simp [hasAction]

theorem hasGuard_eq_false_iff : registry.hasGuard name = false ↔ registry.guard? name = none := by
  simp [hasGuard]

/-- A pair is reported with its state first. -/
theorem exists_reported_iff {reported : String → String → Prop} :
    (∃ a b, reported a b ∧ b = id ∧ a = name) ↔ reported name id := by
  constructor
  · rintro ⟨_, _, isReported, rfl, rfl⟩
    exact isReported
  · exact fun isReported => ⟨_, _, isReported, rfl, rfl⟩

theorem mem_unknownNames
    (unguarded : ∀ n, ∀ delayed ∈ (definition.behaviour n).after, delayed.transition.guard = none) :
    issue ∈ registry.unknownNames definition ↔ registry.Lacks definition issue := by
  simp only [unknownNames, Definition.actionReferences, Definition.guardReferences,
    List.mem_append, List.mem_map, List.mem_filter, Bool.not_eq_true', hasAction_eq_false_iff,
    hasGuard_eq_false_iff, Prod.exists, Definition.mem_references, Definition.mem_actionNames,
    Definition.mem_guardNames (unguarded _)]
  -- an issue comes from the list of its own kind, and from one place in it
  cases issue with
  | unknownAction state name =>
      simp only [Lacks, DefinitionError.unknownAction.injEq, reduceCtorEq, and_false, exists_false,
        or_false]
      exact exists_reported_iff
  | unknownGuard state name =>
      simp only [Lacks, DefinitionError.unknownGuard.injEq, reduceCtorEq, and_false, exists_false,
        false_or]
      exact exists_reported_iff
  | _ => simp [Lacks]

/-- No pair is missing twice. -/
theorem nodup_unknownNames : (registry.unknownNames definition).Nodup := by
  have listed := fun names : Nat → List String =>
    (definition.sorted_references names).nodup
  refine List.nodup_append.2 ⟨?_, ?_, ?_⟩
  · refine ((listed _).filter _).map fun a b same => ?_
    simpa [Prod.ext_iff, and_comm] using same
  · refine ((listed _).filter _).map fun a b same => ?_
    simpa [Prod.ext_iff, and_comm] using same
  · simp only [List.mem_map]
    rintro _ ⟨_, _, rfl⟩ _ ⟨_, _, rfl⟩ same
    cases same

theorem single_of_unknownNames (isUnknown : issue ∈ registry.unknownNames definition) :
    issue.issues = [issue] := by
  simp only [unknownNames, List.mem_append, List.mem_map] at isUnknown
  rcases isUnknown with ⟨_, _, rfl⟩ | ⟨_, _, rfl⟩ <;> rfl

section

variable {machine : MachineSpec} (built : machine.build = .ok definition)

include built

/-- What a registry lacks is what is left of the names of a definition that is built. -/
theorem provides_iff_unknownNames_eq_nil :
    registry.Provides definition ↔ registry.unknownNames definition = [] := by
  have lacks : ∀ issue, issue ∈ registry.unknownNames definition ↔
      registry.Lacks definition issue :=
    fun issue => mem_unknownNames fun n => MachineSpec.unguarded_of_build built
  constructor
  · intro provides
    refine List.eq_nil_iff_forall_not_mem.2 fun issue isUnknown => ?_
    have isLacking := (lacks issue).1 isUnknown
    cases issue with
    | unknownAction state name =>
        obtain ⟨⟨n, _, _, uses⟩, isMissing⟩ := isLacking
        obtain ⟨action, found⟩ := provides.action uses
        cases isMissing.symm.trans found
    | unknownGuard state name =>
        obtain ⟨⟨n, _, _, uses⟩, isMissing⟩ := isLacking
        obtain ⟨guard, found⟩ := provides.guard uses
        cases isMissing.symm.trans found
    | _ => exact isLacking
  · intro nothing
    have complete : ∀ issue, ¬ registry.Lacks definition issue := by
      intro issue isLacking
      have isUnknown := (lacks issue).2 isLacking
      simp [nothing] at isUnknown
    refine ⟨fun {n name} uses => Option.ne_none_iff_exists'.1 fun isMissing => ?_,
      fun {n name} uses => Option.ne_none_iff_exists'.1 fun isMissing => ?_⟩
    · exact complete (.unknownAction _ name)
        ⟨⟨n, MachineSpec.lt_size_of_usesAction built uses, rfl, uses⟩, isMissing⟩
    · exact complete (.unknownGuard _ name)
        ⟨⟨n, MachineSpec.lt_size_of_usesGuard built uses, rfl, uses⟩, isMissing⟩

theorem validate_eq_ok_iff :
    registry.validate definition = .ok () ↔ registry.Provides definition := by
  rw [validate, DefinitionError.collect_eq_ok_iff, provides_iff_unknownNames_eq_nil built]

/-- A registry that is refused is told all that it lacks, and nothing twice. -/
theorem issues_of_validate {error : DefinitionError}
    (refused : registry.validate definition = .error error) :
    error.issues.Nodup ∧ ∀ issue, issue ∈ error.issues ↔ registry.Lacks definition issue := by
  have listed := DefinitionError.issues_of_collect (fun _ => single_of_unknownNames) refused
  rw [listed]
  exact ⟨nodup_unknownNames, fun issue =>
    mem_unknownNames fun n => MachineSpec.unguarded_of_build built⟩

end

end Registry

end Statechart
