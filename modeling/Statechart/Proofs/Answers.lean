import Statechart.Proofs.Forgetful
import Statechart.Proofs.Passes

/-!
# Answers

A request from outside is answered when the code that made it goes on. An answer does not
depend on that code, and where no code looks at the history there is one answer only, at
whatever readings of the clock.
-/

namespace Statechart

variable {σ Listener : Type}

theorem Routine.Silent.forgetful {α : Type} {code : Routine σ Listener α} (silent : code.Silent) :
    code.Forgetful := by
  induction code with
  | done result => trivial
  | read next ih => exact fun memory => ih memory (silent memory)
  | write memory next ih => exact ih silent
  | ask request next => exact silent.elim

theorem Program.Discreet.forgetful {program : Program σ Listener} (discreet : program.Discreet) :
    program.Forgetful where
  actions name action isAction call := (discreet.actions name action isAction call).forgetful
  listeners listener snapshot := (discreet.listeners listener snapshot).forgetful

namespace Standing

variable {s t u : Standing σ Listener} {work later : List (Work σ Listener)}

theorem does_inj (same : s.does work = t.does later) : s = t ∧ work = later := by
  simp only [does, Execution.mk.injEq] at same
  exact ⟨Prod.ext same.1 same.2.1, same.2.2.1⟩

/-- The same but for the history, and there but for the dates. -/
structure Alike (s t : Standing σ Listener) : Prop where
  interpreter : t.1 = s.1.withHistory t.1.history
  history : t.1.history.undated = s.1.history.undated
  memory : t.2 = s.2

theorem Alike.refl (s : Standing σ Listener) : s.Alike s := ⟨rfl, rfl, rfl⟩

theorem Alike.symm (alike : s.Alike t) : t.Alike s where
  interpreter := by
    rw [alike.interpreter]
    rfl
  history := alike.history.symm
  memory := alike.memory.symm

theorem Alike.does_eq (alike : s.Alike t) (work : List (Work σ Listener)) :
    t.does work = (s.does work).withHistory t.1.history := by
  simp only [does, Execution.withHistory, ← alike.interpreter, alike.memory]

end Standing

namespace Program

variable {program : Program σ Listener} {s t s' t' : Standing σ Listener}
variable {readings later others : List Timestamp}

/-- A request from outside is answered along some readings of the clock, whatever goes on
with the answer. -/
abbrev Answers (program : Program σ Listener) (readings : List Timestamp)
    (before : Standing σ Listener) (request : Request Listener) (answer : request.Answer)
    (chronicle : Chronicle Listener) (after : Standing σ Listener) : Prop :=
  program.Brings readings before
    (fun next : request.Answer → Routine σ Listener Unit => [.client (.ask request next)])
    chronicle after fun next => [.client (next answer)]

theorem Answers.runsTo {request : Request Listener} {answer : request.Answer}
    {chronicle : Chronicle Listener}
    (answers : program.Answers readings s request answer chronicle t)
    (next : request.Answer → Routine σ Listener Unit) :
    program.RunsTo (s.does [.client (.ask request next)]) chronicle
      (t.does [.client (next answer)]) :=
  Brings.runsTo answers next

/-- Code that is done leaves no work. -/
theorem runAt_client_done {execution : Execution σ Listener} {code : Routine σ Listener Unit}
    (isWork : execution.work = [.client (.done ())])
    (ends : execution.runAt program readings = t.does [.client code]) : readings = [] := by
  cases readings with
  | nil => rfl
  | cons now readings =>
      have steps : execution.step? program now = some { execution with work := [] } := by
        simp [Execution.step?, isWork, Execution.proceed]
      rw [Execution.runAt_cons steps, Execution.runAt_of_no_work rfl] at ends
      cases congrArg (·.work) ends

/-- What goes on with an answer comes to where it would go on with another only if it has
done nothing yet and the answers are the same. -/
theorem eq_of_returned (program : Program σ Listener) {α : Type} {answer other : α}
    (ends : ∀ next : α → Routine σ Listener Unit, (∀ answer, (next answer).Forgetful) →
      (s.does [.client (next answer)]).runAt program readings = t.does [.client (next other)]) :
    readings = [] ∧ answer = other ∧ s = t := by
  classical
  obtain rfl := runAt_client_done rfl (ends (fun _ => .done ()) fun _ => trivial)
  let next : α → Routine σ Listener Unit := fun given =>
    if given = answer then .done () else .read fun _ => .done ()
  have forgetful : ∀ given, (next given).Forgetful := by
    intro given
    by_cases same : given = answer <;> simp [next, same, Routine.Forgetful]
  obtain ⟨sameStanding, sameWork⟩ := Standing.does_inj (ends next forgetful)
  refine ⟨rfl, ?_, sameStanding⟩
  by_contra different
  have different : ¬ other = answer := fun same => different same.symm
  simp [next, different] at sameWork

/-- Work that comes to an answer comes to no other. -/
theorem Brings.eq_of_append {α : Type}
    {work : (α → Routine σ Listener Unit) → List (Work σ Listener)} {answer answer' : α}
    {chronicle chronicle' : Chronicle Listener} {earlier rest : List Timestamp}
    (brings : program.Brings earlier s work chronicle t fun next => [.client (next answer)])
    (also : program.Brings (earlier ++ rest) s work chronicle' t' fun next =>
      [.client (next answer')]) :
    rest = [] ∧ answer = answer' ∧ chronicle = chronicle' ∧ t = t' := by
  obtain ⟨rfl, sameAnswer, sameStanding⟩ : rest = [] ∧ answer = answer' ∧ t = t' := by
    apply eq_of_returned program
    intro next _
    have ends := (also next).1
    rw [Execution.runAt_append, (brings next).1] at ends
    exact ends
  refine ⟨rfl, sameAnswer, ?_, sameStanding⟩
  have happens := (also fun _ => .done ()).2
  rw [List.append_nil, (brings fun _ => .done ()).2] at happens
  exact happens

section

variable {request : Request Listener} {answer answer' : request.Answer}
variable {chronicle chronicle' : Chronicle Listener} (isForgetful : program.Forgetful)

include isForgetful

/-- The histories after an answer are those before with the records of what has happened. -/
theorem Answers.history (unseen : request ≠ .look)
    (answers : program.Answers readings s request answer chronicle t) :
    t.1.history = s.1.history.pushAll (Chronicle.records chronicle) := by
  obtain ⟨ends, happens⟩ := answers fun _ => .done ()
  have forgetful : (s.does [.client (.ask request fun _ => .done ())]).Forgetful :=
    List.forall_mem_singleton.2 (.client (Routine.forgetful_ask unseen fun _ => trivial))
  have taken := history_runAt isForgetful forgetful readings
  rw [ends, happens] at taken
  exact taken

/-- Along other readings a machine that stands alike comes to the same, up to dates. -/
theorem Answers.along {same : List Timestamp} (unseen : request ≠ .look)
    (answers : program.Answers readings s request answer chronicle t) (alike : s.Alike s')
    (sameLength : same.length = readings.length) (next : request.Answer → Routine σ Listener Unit)
    (forgetful : ∀ answer, (next answer).Forgetful) :
    (s'.does [.client (.ask request next)]).runAt program same =
        (t.does [.client (next answer)]).withHistory (s'.1.history.pushAll (Chronicle.records
          (program.chronicleAt same (s'.does [.client (.ask request next)])))) ∧
      (program.chronicleAt same (s'.does [.client (.ask request next)])).undated =
        chronicle.undated := by
  have startForgetful : (s.does [.client (.ask request next)]).Forgetful :=
    List.forall_mem_singleton.2 (.client (Routine.forgetful_ask unseen forgetful))
  have commutes := runAt_withHistory s'.1.history isForgetful startForgetful sameLength
  rw [← alike.does_eq, (answers next).1, (answers next).2] at commutes
  exact commutes

theorem Answers.unique_of_le (unseen : request ≠ .look)
    (answers : program.Answers readings s request answer chronicle t)
    (also : program.Answers others s' request answer' chronicle' t') (alike : s.Alike s')
    (le : readings.length ≤ others.length) :
    answer' = answer ∧ chronicle'.undated = chronicle.undated ∧ t.Alike t' := by
  obtain ⟨same, rest, rfl, sameLength⟩ : ∃ same rest, others = same ++ rest ∧
      same.length = readings.length :=
    ⟨others.take readings.length, others.drop readings.length, (List.take_append_drop _ _).symm,
      List.length_take_of_le le⟩
  have along := answers.along isForgetful unseen alike sameLength
  -- the other run comes to the answer no later
  obtain rfl : rest = [] := by
    have ends := (also fun _ => .done ()).1
    rw [Execution.runAt_append, (along (fun _ => .done ()) fun _ => trivial).1] at ends
    exact runAt_client_done rfl ends
  rw [List.append_nil] at also
  let u : Standing σ Listener :=
    (t.1.withHistory (s'.1.history.pushAll (Chronicle.records chronicle')), t.2)
  obtain ⟨_, rfl, rfl⟩ : [] = ([] : List Timestamp) ∧ answer = answer' ∧ u = t' := by
    apply eq_of_returned program
    intro next forgetful
    have ends := (along next forgetful).1
    rw [(also next).1, (also next).2] at ends
    exact ends.symm
  have sameChronicle : chronicle'.undated = chronicle.undated := by
    have happens := (along (fun _ => .done ()) fun _ => trivial).2
    rwa [(also _).2] at happens
  refine ⟨rfl, sameChronicle, rfl, ?_, rfl⟩
  have sameRecords := congrArg Chronicle.records sameChronicle
  rw [Chronicle.records_undated, Chronicle.records_undated] at sameRecords
  rw [answers.history isForgetful unseen]
  simp only [u, Interpreter.withHistory, History.undated_pushAll, alike.history, sameRecords]

/-- There is one answer, and what happens and what comes of it are the same up to dates. -/
theorem Answers.unique (unseen : request ≠ .look)
    (answers : program.Answers readings s request answer chronicle t)
    (also : program.Answers others s' request answer' chronicle' t') (alike : s.Alike s') :
    answer' = answer ∧ chronicle'.undated = chronicle.undated ∧ t.Alike t' := by
  rcases Nat.le_total readings.length others.length with le | ge
  · exact answers.unique_of_le isForgetful unseen also alike le
  · obtain ⟨sameAnswer, sameChronicle, alikeAfter⟩ :=
      also.unique_of_le isForgetful unseen answers alike.symm ge
    exact ⟨sameAnswer.symm, sameChronicle.symm, alikeAfter.symm⟩

end

end Program

end Statechart
