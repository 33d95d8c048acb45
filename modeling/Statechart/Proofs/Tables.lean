import Statechart.Proofs.Handlers
import Statechart.Proofs.References

/-!
# Tables of steps

What an event does in a configuration can be computed once for all contexts where the definition
asks no guard. The states that a step enters are completed in a number of rounds, and whoever
has a number that is large enough need not ask why the rounds come to an end.
-/

namespace Statechart

namespace Definition

variable (definition : Definition)

/-- Completes the entered states in a number of rounds, if they are enough. -/
def completeWithin (retained : StateSet) : Nat → StateSet → List Nat → Option StateSet
  | _, entering, [] => some entering
  | 0, _, _ :: _ => none
  | rounds + 1, entering, n :: rest =>
    let lacking := definition.missing retained entering n
    completeWithin retained rounds (entering.insertAll lacking) (lacking.reverse ++ rest)

/-- The plan of a step, if the states that it enters are complete after a number of rounds. -/
def planWithin (rounds : Nat) (active : Configuration) (transitions : List Transition) :
    Option Plan :=
  let retained := definition.retained active transitions
  let targets := definition.pathStates transitions
  let exited := (definition.exiting active transitions).toList.reverse
  (definition.completeWithin retained rounds targets targets.toList.reverse).map fun entering =>
    { exited
      entered := entering.toList
      configuration := retained.union entering
      invocations :=
        exited.flatMap (fun n => invocationsOf (definition.behaviour n).exit n) ++
        transitions.flatMap (fun t => invocationsOf t.actions t.source) ++
        entering.toList.flatMap (fun n => invocationsOf (definition.behaviour n).entry n) }

/-- The plan of an event where no guard passes, or that there is none; nothing at all if the
rounds were not enough. -/
def outcomeWithin (rounds : Nat) (active : Configuration) (event : String) :
    Option (Option Plan) :=
  match definition.select (fun _ => none) active .empty event with
  | [] => some none
  | transitions => (definition.planWithin rounds active transitions).map some

/-- No candidate of an event asks a guard. -/
def Unguarded : Prop :=
  ∀ n, ∀ entry ∈ (definition.behaviour n).on, ∀ t ∈ entry.2, t.guard = none

/-- A state declares candidates for known events only. -/
def Knows (events : List String) : Prop :=
  ∀ n, ∀ entry ∈ (definition.behaviour n).on, entry.1 ∈ events

variable {definition} {retained entering complete : StateSet} {pending : List Nat} {rounds : Nat}
variable {active : Configuration} {transitions : List Transition} {plan : Plan} {event : String}

theorem completeEntry_of_completeWithin
    (isComplete : definition.completeWithin retained rounds entering pending = some complete) :
    definition.completeEntry retained entering pending = complete := by
  induction rounds generalizing entering pending with
  | zero =>
      cases pending with
      | nil =>
          rw [completeEntry]
          exact Option.some.inj isComplete
      | cons => cases isComplete
  | succ rounds ih =>
      cases pending with
      | nil =>
          rw [completeEntry]
          exact Option.some.inj isComplete
      | cons n rest =>
          rw [completeEntry]
          exact ih isComplete

theorem plan_of_planWithin (isPlan : definition.planWithin rounds active transitions = some plan) :
    definition.plan active transitions = plan := by
  obtain ⟨entering, isComplete, rfl⟩ := Option.map_eq_some_iff.1 isPlan
  have enters : definition.entering active transitions = entering :=
    completeEntry_of_completeWithin isComplete
  rw [← enters]
  rfl

section Unguarded

variable (unguarded : definition.Unguarded)

include unguarded

/-- Where no guard is asked the context makes no difference. -/
theorem candidateOf?_congr (guards other : String → Option Guard) (context also : Context)
    (n : Nat) : definition.candidateOf? guards context event n =
      definition.candidateOf? other also event n := by
  have passes_eq : ∀ t ∈ (definition.candidates? n event).getD [],
      passes guards context event t = passes other also event t := by
    intro t isCandidate
    cases found : definition.candidates? n event with
    | none => simp [found] at isCandidate
    | some candidates =>
        obtain ⟨before, after, split, _⟩ := List.lookup_eq_some_iff.1 found
        rw [found] at isCandidate
        have declared : (event, candidates) ∈ (definition.behaviour n).on := by simp [split]
        simp [passes, unguarded n _ declared t isCandidate]
  exact List.find?_congr passes_eq

theorem select_congr (guards other : String → Option Guard) (context also : Context) :
    definition.select guards active context event = definition.select other active also event := by
  have sameCandidate : definition.candidateOf? guards context event =
      definition.candidateOf? other also event :=
    funext (candidateOf?_congr unguarded guards other context also)
  simp only [select, enabled, chosenBy?, sameCandidate]

variable {guards : String → Option Guard} {context : Context}

theorem select_of_outcomeWithin_none
    (isOutcome : definition.outcomeWithin rounds active event = some none) :
    definition.select guards active context event = [] := by
  rw [select_congr unguarded guards (fun _ => none) context .empty]
  unfold outcomeWithin at isOutcome
  split at isOutcome
  · next nothing => exact nothing
  · simp at isOutcome

theorem plan_of_outcomeWithin
    (isOutcome : definition.outcomeWithin rounds active event = some (some plan)) :
    definition.select guards active context event ≠ [] ∧
      definition.plan active (definition.select guards active context event) = plan := by
  rw [select_congr unguarded guards (fun _ => none) context .empty]
  unfold outcomeWithin at isOutcome
  split at isOutcome
  · simp at isOutcome
  · next handled =>
    exact ⟨handled, plan_of_planWithin (by simpa using isOutcome)⟩

end Unguarded

/-- Nothing is done on an event that no state knows. -/
theorem Knows.select_eq_nil {events : List String} {guards : String → Option Guard}
    {context : Context} (knows : definition.Knows events) (unknown : event ∉ events) :
    definition.select guards active context event = [] := by
  rw [select, removeConflicts_eq_nil_iff, enabled_eq_nil_iff]
  intro leaf _
  rw [chosenBy?_eq_none_iff]
  rintro n _ ⟨candidates, t, found, _⟩
  obtain ⟨before, after, split, _⟩ := List.lookup_eq_some_iff.1 found
  have declared : (event, candidates) ∈ (definition.behaviour n).on := by simp [split]
  exact unknown (knows n _ declared)

end Definition

end Statechart
