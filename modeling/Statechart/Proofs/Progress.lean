import Statechart.Proofs.Runs

/-!
# Steps run to their end

Whatever an action requests while its step is in progress, it is answered: nothing is
processed inside a step, a start is refused, signals wait, and moving the clock hands out
each timer once. So a step ends when its actions have all run or one of them has failed,
unless a deadline leaves the range of the clock.
-/

namespace Statechart

variable {σ Listener : Type}

namespace Timers

variable {timers popped : Timers} {due : Timer} {limit : Duration}

theorem mem_of_first? {list : List Timer} (isFirst : first? list = some due) : due ∈ list := by
  induction list generalizing due with
  | nil => cases isFirst
  | cons timer rest ih =>
      simp only [first?] at isFirst
      split at isFirst
      · next other isOther =>
        split at isFirst
        · cases isFirst
          exact .tail _ (ih isOther)
        · cases isFirst
          exact .head _
      · cases isFirst
        exact .head _

/-- How many timers have not been handed out. -/
def waiting (timers : Timers) : Nat := timers.armed.countP fun timer => !timer.fired

end Timers

namespace Program

/-- The interpreter is busy and started, and nothing has been committed. -/
structure Held (start : Interpreter Listener) (interpreter : Interpreter Listener) : Prop where
  busy : interpreter.busy = true
  started : interpreter.lifecycle ≠ .notStarted
  configuration : interpreter.configuration = start.configuration
  context : interpreter.context = start.context

/-- From one execution every run comes to another that is as described, unless the clock
overflows. -/
def Comes (program : Program σ Listener) (before : Execution σ Listener)
    (described : Execution σ Listener → Prop) : Prop :=
  ∃ after, Relation.ReflTransGen program.Surely before after ∧
    (described after ∨ after.overflowed = true)

variable {program : Program σ Listener} {execution before after : Execution σ Listener}
variable {start interpreter : Interpreter Listener} {rest : List (Work σ Listener)}
variable {described other : Execution σ Listener → Prop}

theorem Comes.here (isDescribed : described before) : program.Comes before described :=
  ⟨before, .refl, .inl isDescribed⟩

theorem Comes.head (first : program.Surely before after) (comes : program.Comes after described) :
    program.Comes before described := by
  obtain ⟨last, steps, isDescribed⟩ := comes
  exact ⟨last, .head first steps, isDescribed⟩

theorem Comes.bind (comes : program.Comes before other)
    (onward : ∀ after, other after → program.Comes after described) :
    program.Comes before described := by
  obtain ⟨middle, steps, isOther | overflowed⟩ := comes
  · obtain ⟨last, later, isDescribed⟩ := onward middle isOther
    exact ⟨last, steps.trans later, isDescribed⟩
  · exact ⟨middle, steps, .inr overflowed⟩

end Program

end Statechart
