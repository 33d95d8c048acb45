import Statechart.Proofs.Phases

/-!
# Run to completion

However deep the calls of actions and listeners go, a signal is taken from the queue only
when nothing of the signal before it is left, and signals are taken in the order in which
they have come. The queue is the part of that order which is still to be taken.
-/

namespace Statechart

variable {σ Listener : Type}

namespace Work

/-- Work on signals: the pass over the queue, or the step it waits for. -/
def IsProcessing (work : Work σ Listener) : Prop :=
  (∃ drain, work = .draining drain) ∨ ∃ step, IsOf step work

abbrev Processing : Work σ Listener → Prop := Leads IsProcessing

variable {kind other : Work σ Listener → Prop} {work : Work σ Listener}

theorem Leads.mono (leads : Leads kind work) (weaker : ∀ work, kind work → other work) :
    Leads other work := by
  induction leads with
  | here isKind => exact .here (weaker _ isKind)
  | advancing limit fired after ih => exact .advancing limit fired ih

/-- Two kinds of which none moves the clock lead to common work only if they have some. -/
theorem Leads.common (leads : Leads kind work) (also : Leads other work)
    (still : ∀ limit fired resume, ¬ kind (.advancing limit fired resume) ∧
      ¬ other (.advancing limit fired resume)) : ∃ work, kind work ∧ other work := by
  induction leads with
  | @here work isKind =>
      cases also with
      | here isOther => exact ⟨work, isKind, isOther⟩
      | advancing => exact absurd isKind (still _ _ _).1
  | advancing limit fired after ih =>
      cases also with
      | here isOther => exact absurd isOther (still _ _ _).2
      | advancing _ _ also => exact ih (.ok 0) (also _)

theorem not_processing_of_outside (outside : Outside work) : ¬ Processing work := by
  intro processing
  have still := fun limit fired (resume : Except InterpreterError Nat → Work σ Listener) =>
    show ¬ IsClient (.advancing limit fired resume) ∧ ¬ IsProcessing (.advancing limit fired resume)
      by simp [IsClient, IsProcessing, IsOf]
  obtain ⟨_, ⟨code, rfl⟩, isProcessing⟩ := outside.common processing still
  simp [IsProcessing, IsOf] at isProcessing

theorem not_processing_of_listening (listening : Leads IsListening work) : ¬ Processing work := by
  intro processing
  have still := fun limit fired (resume : Except InterpreterError Nat → Work σ Listener) =>
    show ¬ IsListening (.advancing limit fired resume) ∧
      ¬ IsProcessing (.advancing limit fired resume) by simp [IsListening, IsProcessing, IsOf]
  obtain ⟨_, ⟨code, rfl⟩, isProcessing⟩ := listening.common processing still
  simp [IsProcessing, IsOf] at isProcessing

theorem not_processing_notifying (subscribers : List (Nat × Listener)) (snapshot : Snapshot) :
    ¬ Processing (.notifying subscribers snapshot : Work σ Listener) := by
  intro processing
  cases processing with
  | here isProcessing => simp [IsProcessing, IsOf] at isProcessing

theorem processing_draining (drain : Drain (Work σ Listener)) :
    Processing (.draining drain : Work σ Listener) := .here (.inl ⟨drain, rfl⟩)

end Work

namespace Phase

open Work

variable {phase : Phase σ Listener} {work : List (Work σ Listener)}

/-- There is work on signals in the busy phases, once each. -/
theorem Arranged.processing (arranged : phase.Arranged work) :
    (phase.isBusy = true ↔ ∃ some ∈ work, Processing some) ∧
      work.Pairwise fun upper lower => ¬ (Processing upper ∧ Processing lower) := by
  cases arranged with
  | ended => simp [isBusy]
  | pass after => simp [isBusy, processing_draining]
  | news after =>
      simp [isBusy, processing_draining, not_processing_notifying]
  | farewell outside =>
      simp [isBusy, not_processing_notifying, not_processing_of_outside outside]
  | hosted hosts leads =>
      cases hosts with
      | client => simp [isBusy, not_processing_of_outside leads]
      | @step step after =>
          have processing : Processing _ := leads.mono fun work isOf => .inr ⟨step, isOf⟩
          simp [isBusy, processing]
      | news after =>
          simp [isBusy, processing_draining, not_processing_notifying,
            not_processing_of_listening leads]
      | farewell outside =>
          simp [isBusy, not_processing_notifying, not_processing_of_outside outside,
            not_processing_of_listening leads]

/-- When the pass over the queue is at its turn, only outside work is left. -/
theorem Arranged.draining {drain : Drain (Work σ Listener)} {rest : List (Work σ Listener)}
    (arranged : phase.Arranged (.draining drain :: rest)) :
    rest = [] ∧ ∀ result, Outside (drain.resume result) := by
  cases arranged with
  | pass after => exact ⟨rfl, after⟩
  | hosted hosts leads =>
      cases leads with
      | here isKind =>
          cases hosts with
          | client => simp [IsClient] at isKind
          | step => simp [IsOf] at isKind
          | news => simp [IsListening] at isKind
          | farewell => simp [IsListening] at isKind

end Phase

namespace Program

open Chronicle

variable {program : Program σ Listener} {now : Timestamp} {phase next : Phase σ Listener}
variable {i after : Interpreter Listener} {happenings : Chronicle Listener}

/-- A move takes from the queue at the front and adds to it at the end, or it drops all
that waits. -/
theorem Move.queue (move : program.Move now phase i happenings next after) :
    ((∀ happening ∈ happenings, happening.isDropped = false) ∧
      i.queue ++ entered happenings = taken happenings ++ after.queue) ∨
    ∃ later, happenings = .dropped :: later ∧
      (∀ happening ∈ later, happening.isDropped = false) ∧
      entered later = [] ∧ taken later = [] ∧ after.queue = [] := by
  cases move with
  | stop =>
      cases lifecycle : i.lifecycle with
      | stopped => simp [Interpreter.requested, Interpreter.stop, lifecycle]
      | notStarted | running | done =>
          right
          cases busy : i.busy <;>
            simp [Interpreter.requested, Interpreter.stop, lifecycle, busy, Happening.entered?,
              Happening.taken?, Happening.isDropped]
  | abandon => exact .inr ⟨[], rfl, by simp, rfl, rfl, rfl⟩
  | publish isPublished =>
      left
      rw [Interpreter.ended_of_published isPublished]
      rcases (Interpreter.published_of_commit isPublished).outcome with
        ⟨_, _, ⟨isDone, _, queue⟩ | ⟨isRunning, _, queue⟩⟩
      · simp [isDone, queue, Happening.entered?, Happening.taken?, Happening.isDropped]
      · simp [isRunning, queue, Happening.entered?, Happening.taken?, Happening.isDropped]
  | skip isQueue => simp [isQueue, Happening.entered?, Happening.taken?, Happening.isDropped]
  | take isQueue => simp [isQueue, Happening.entered?, Happening.taken?, Happening.isDropped]
  | release => simp [Interpreter.release]
  | _ => simp [Happening.entered?, Happening.taken?, Happening.isDropped, Interpreter.enqueue,
      Interpreter.subscribe, Interpreter.unsubscribe]

/-- Since signals were last dropped, those that have entered the queue are those that have
been taken, and after them those that wait. -/
theorem Move.inOrder {chronicle : Chronicle Listener}
    (move : program.Move now phase i happenings next after)
    (inOrder : entered (sinceDropped chronicle) = taken (sinceDropped chronicle) ++ i.queue) :
    entered (sinceDropped (chronicle ++ happenings)) =
      taken (sinceDropped (chronicle ++ happenings)) ++ after.queue := by
  rcases move.queue with ⟨kept, moved⟩ | ⟨later, rfl, kept, noneEntered, noneTaken, isEmpty⟩
  · simp only [sinceDropped_append kept, entered_append, taken_append, inOrder, List.append_assoc,
      moved]
  · simp [sinceDropped_dropped kept, noneEntered, noneTaken, isEmpty]

variable {start execution : Execution σ Listener} {chronicle : Chronicle Listener}

theorem RunsTo.inOrder (run : program.RunsTo start chronicle execution)
    (situated : program.Situated phase start) (isEmpty : start.interpreter.queue = []) :
    entered (sinceDropped chronicle) =
      taken (sinceDropped chronicle) ++ execution.interpreter.queue := by
  have initially : entered (sinceDropped ([] : Chronicle Listener)) =
      taken (sinceDropped ([] : Chronicle Listener)) ++ start.interpreter.queue := by
    simp [isEmpty, sinceDropped, entered, taken]
  obtain ⟨last, timers, run, inRange, same⟩ := run.exists_inRange situated
  obtain ⟨_, _, inOrder⟩ := run.induct
    (fun _ i chronicle =>
      entered (sinceDropped chronicle) = taken (sinceDropped chronicle) ++ i.queue)
    inRange situated initially fun _ move => move.inOrder
  rw [same]
  exact inOrder

/-- Signals are taken by the pass over the queue only. -/
theorem draining_of_taken {signal : Signal}
    (isTaken : .taken signal ∈ program.happenings now execution) :
    ∃ drain rest, execution.work = .draining drain :: rest := by
  have requested : ∀ request : Request Listener, .taken signal ∉
      execution.interpreter.requested program.definition request := by
    intro request
    cases request with
    | send event => by_cases isRunning : execution.interpreter.isRunning <;>
        simp [Interpreter.requested, isRunning]
    | stop => cases lifecycle : execution.interpreter.lifecycle <;>
        simp [Interpreter.requested, lifecycle]
    | _ => simp [Interpreter.requested]
  have ended : ∀ step : StepResult, .taken signal ∉
      execution.interpreter.ended program.definition now step := by
    intro step
    unfold Interpreter.ended
    split
    · next after _ => by_cases isDone : after.lifecycle = .done <;> simp [isDone]
    · simp
    · simp
  have fired : ∀ limit, .taken signal ∉ execution.interpreter.fired limit := by
    intro limit
    unfold Interpreter.fired
    split
    · split <;> simp
    · simp
  unfold happenings at isTaken
  dsimp only at isTaken
  split at isTaken
  · exact absurd isTaken (requested _)
  · exact absurd isTaken (requested _)
  · exact absurd isTaken (requested _)
  · split at isTaken <;> simp at isTaken
  · split at isTaken
    · exact absurd isTaken (ended _)
    · simp at isTaken
  · next drain rest isWork => exact ⟨drain, rest, isWork⟩
  · simp at isTaken
  · exact absurd isTaken (fired _)
  · simp at isTaken

/-- Run to completion. In every state that a run reaches, the signals that have entered the
queue since it was last dropped are those taken from it, in that order, and those that
still wait; there is one work on signals at most, and a signal is taken only when nothing
but outside work goes on after it; and without work on signals no signal and no notice of
a stop waits. -/
theorem run_to_completion {interpreter : Interpreter Listener} {memory : σ}
    {code : Routine σ Listener Unit} (begins : program.Begins interpreter)
    (run : program.RunsTo (.ofClient interpreter memory code) chronicle execution) :
    entered (sinceDropped chronicle) =
        taken (sinceDropped chronicle) ++ execution.interpreter.queue ∧
      execution.work.Pairwise (fun upper lower => ¬ (upper.Processing ∧ lower.Processing)) ∧
      (∀ now signal, .taken signal ∈ program.happenings now execution →
        ∃ drain, execution.work = [.draining drain] ∧
          ∀ result, Work.Outside (drain.resume result)) ∧
      (execution.overflowed = false →
        (execution.interpreter.busy = true ↔ ∃ work ∈ execution.work, work.Processing) ∧
        ((∀ work ∈ execution.work, ¬ work.Processing) →
          execution.interpreter.queue = [] ∧ execution.interpreter.pendingStop = none)) := by
  have situated : program.Situated .outside (.ofClient interpreter memory code) :=
    situated_ofClient begins
  obtain ⟨tidy, isIdle⟩ := begins.tidy
  refine ⟨run.inOrder situated (tidy.idle isIdle).1, ?_⟩
  rcases run.situated situated with ⟨inRange, phase, isSituated⟩ | ⟨overflowed, noWork⟩
  · obtain ⟨busy_iff, apart⟩ := isSituated.arranged.processing
    have busy : execution.interpreter.busy = true ↔ ∃ work ∈ execution.work, work.Processing := by
      rw [isSituated.fits.busy, busy_iff]
    refine ⟨apart, ?_, fun _ => ⟨busy, fun noWork => ?_⟩⟩
    · intro now signal isTaken
      obtain ⟨drain, rest, isWork⟩ := draining_of_taken isTaken
      have arranged := isSituated.arranged
      rw [isWork] at arranged
      obtain ⟨rfl, after⟩ := arranged.draining
      exact ⟨drain, isWork, after⟩
    · apply isSituated.settled.tidy.idle
      rw [Bool.eq_false_iff, Ne, busy]
      rintro ⟨work, member, processing⟩
      exact noWork work member processing
  · refine ⟨by simp [noWork], ?_, fun inRange => absurd overflowed (by simp [inRange])⟩
    intro now signal isTaken
    obtain ⟨drain, rest, isWork⟩ := draining_of_taken isTaken
    simp [noWork] at isWork

/-- The bell has rung: what came while it rang waits behind the step, a timer that the bell
has let fall due in between. -/
theorem hall_in_order :
    taken (sinceDropped (hall.chronicle default 31 visiting)) =
        [.event "seen", .event "motion", .event "seen", .event "open"] ∧
      entered (sinceDropped (hall.chronicle default 31 visiting)) =
        [.event "seen", .event "motion", .event "seen", .event "open", .event "knock",
          .timer ⟨6, 0⟩ 1, .event "motion", .event "seen"] := by
  have run : hall.RunsTo visiting _ _ := runsTo_run default 31 visiting
  have inOrder := (run_to_completion begins_hall run).1
  have isTaken : taken (sinceDropped (hall.chronicle default 31 visiting)) =
      [.event "seen", .event "motion", .event "seen", .event "open"] := by cbv
  have waits : (visiting.run hall default 31).interpreter.queue =
      [.event "knock", .timer ⟨6, 0⟩ 1, .event "motion", .event "seen"] := by cbv
  rw [inOrder, isTaken, waits]
  simp

end Program

end Statechart
