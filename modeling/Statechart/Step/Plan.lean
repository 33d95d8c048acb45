import Statechart.Step.Scope

/-!
# The plan of a step

Which states a set of transitions exits and enters, the configuration they lead to,
and the actions to run: exits from the innermost, then the transitions' own, then
entries from the outermost.
-/

namespace Statechart

structure Invocation where
  action : String
  state : Nat
  deriving DecidableEq

structure Plan where
  /-- From the innermost. -/
  exited : List Nat
  /-- From the outermost. -/
  entered : List Nat
  configuration : Configuration
  invocations : List Invocation
  deriving DecidableEq

namespace Definition

variable (definition : Definition)

/-- The children that an entered state still lacks: a compound state without an active
child its initial one, a parallel state every child that is not active. -/
def missing (retained entering : StateSet) (n : Nat) : List Nat :=
  let isActive c := retained.contains c || entering.contains c
  match definition.kind n with
  | .compound =>
    if (definition.children n).any isActive then [] else (definition.initial? n).toList
  | .parallel => (definition.children n).filter fun c => !isActive c
  | .atomic | .final => []

theorem missing_spec {retained entering : StateSet} {n c : Nat}
    (isMissing : c ∈ definition.missing retained entering n) :
    c ∈ definition.children n ∧ c ∉ entering := by
  simp only [missing] at isMissing
  split at isMissing
  · split at isMissing
    · simp at isMissing
    · next inactive =>
      have isChild := definition.initial_mem_children (Option.mem_toList.1 isMissing)
      refine ⟨isChild, fun isEntering => inactive ?_⟩
      exact List.any_eq_true.2 ⟨c, isChild, by simp [StateSet.contains_iff.2 isEntering]⟩
  · obtain ⟨isChild, inactive⟩ := List.mem_filter.1 isMissing
    refine ⟨isChild, fun isEntering => ?_⟩
    simp [StateSet.contains_iff.2 isEntering] at inactive
  · simp at isMissing
  · simp at isMissing

/-- How many states of the tree are not in a set. -/
def absent (set : StateSet) : Nat :=
  ((List.range definition.size).filter fun n => !set.contains n).length

theorem absent_lt {set larger : StateSet} {c : Nat} (inTree : c < definition.size)
    (isNew : c ∉ set) (isThere : c ∈ larger) (grows : ∀ n ∈ set, n ∈ larger) :
    definition.absent larger < definition.absent set := by
  have strictly : ∀ list : List Nat, c ∈ list →
      (list.filter fun n => !larger.contains n).length <
        (list.filter fun n => !set.contains n).length := by
    have weakly : ∀ list : List Nat, (list.filter fun n => !larger.contains n).length ≤
        (list.filter fun n => !set.contains n).length := by
      intro list
      simp only [← List.countP_eq_length_filter]
      refine List.countP_mono_left fun n _ absent => ?_
      simp only [Bool.not_eq_true', ← Bool.not_eq_true, StateSet.contains_iff] at absent ⊢
      exact fun member => absent (grows n member)
    intro list member
    induction list with
    | nil => simp at member
    | cons head rest ih =>
        have rest_le := weakly rest
        by_cases same : c = head
        · subst same
          simp [StateSet.contains_iff.2 isThere,
            Bool.eq_false_iff.2 (mt StateSet.contains_iff.1 isNew)]
          omega
        · have := ih ((List.mem_cons.1 member).resolve_left same)
          by_cases inSet : head ∈ set
          · simp [StateSet.contains_iff.2 inSet,
              StateSet.contains_iff.2 (grows head inSet), this]
          · simp only [List.filter_cons, Bool.eq_false_iff.2 (mt StateSet.contains_iff.1 inSet)]
            split <;> simp <;> omega
  exact strictly _ (List.mem_range.2 inTree)

/-- Completes the entered states from a list of those still to look at: each brings in
the children it lacks, which are looked at next. -/
def completeEntry (retained entering : StateSet) (pending : List Nat) : StateSet :=
  match pending with
  | [] => entering
  | n :: rest =>
    let lacking := definition.missing retained entering n
    completeEntry retained (entering.insertAll lacking) (lacking.reverse ++ rest)
termination_by (definition.absent entering, pending.length)
decreasing_by
  cases empty : definition.missing retained entering n with
  | nil => simp [StateSet.insertAll]; exact .right _ (Nat.lt_succ_self _)
  | cons c others =>
      have isMissing : c ∈ definition.missing retained entering n := by simp [empty]
      obtain ⟨isChild, isNew⟩ := definition.missing_spec isMissing
      refine .left _ _ (definition.absent_lt (definition.child_bounds isChild).2 isNew ?_ ?_)
      · exact StateSet.mem_insertAll.2 (.inl (.head _))
      · exact fun m member => StateSet.mem_insertAll.2 (.inr member)

def invocationsOf (actions : List String) (n : Nat) : List Invocation := actions.map (⟨·, n⟩)

def plan (active : Configuration) (transitions : List Transition) : Plan :=
  let exiting := StateSet.ofList <|
    transitions.flatMap fun t => (definition.exitSet active t).toList
  let targets := StateSet.ofList (transitions.flatMap definition.entryPath)
  let retained := active.filter fun n => !exiting.contains n
  let entering := definition.completeEntry retained targets targets.toList.reverse
  let exited := exiting.toList.reverse
  let entered := entering.toList
  { exited, entered
    configuration := retained.union entering
    invocations :=
      exited.flatMap (fun n => invocationsOf (definition.behaviour n).exit n) ++
      transitions.flatMap (fun t => invocationsOf t.actions t.source) ++
      entered.flatMap (fun n => invocationsOf (definition.behaviour n).entry n) }

/-- The plan of entering the initial configuration from nothing. -/
def initialPlan : Plan :=
  let configuration := definition.initialConfiguration
  { exited := []
    entered := configuration.toList
    configuration
    invocations :=
      configuration.toList.flatMap fun n => invocationsOf (definition.behaviour n).entry n }

end Definition

end Statechart
