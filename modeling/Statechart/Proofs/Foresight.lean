import Statechart.Proofs.Errors
import Statechart.Proofs.Handlers
import Statechart.Proofs.Provision
import Statechart.Proofs.Succession

/-!
# Foresight

What an idle machine answers to the question whether an event would take a transition is what
comes of sending it. If it says no, the event is ignored and leaves nothing behind. If it says
yes, a step begins, and then the first signal of the pass has been processed or rejected,
whatever the actions and listeners do meanwhile: no pass that is answered says that it was
ignored.
-/

namespace Statechart

variable {σ Listener : Type}

namespace Drain

variable {W : Type} {drain : Drain W} {given result : Except InterpreterError Delivery}

/-- A pass may come to a result: not to a signal that was ignored, once its first signal has
come to something else. -/
def Returns (drain : Drain W) (result : Except InterpreterError Delivery) : Prop :=
  drain.first ≠ none → drain.first ≠ some .ignored → result ≠ .ok .ignored

/-- The same while a step of the pass is in progress. -/
def ReturnsAfterStep (drain : Drain W) (result : Except InterpreterError Delivery) : Prop :=
  drain.first ≠ some .ignored → result ≠ .ok .ignored

theorem returns_result (drain : Drain W) : drain.Returns drain.result := by
  unfold Returns Drain.result
  cases drain.failure with
  | some error => simp
  | none => cases drain.first <;> simp

theorem Returns.of_note (returns : (drain.note given).Returns result) : drain.Returns result := by
  intro some notIgnored
  have same : (drain.note given).first = drain.first := by
    obtain ⟨first, isFirst⟩ := Option.ne_none_iff_exists'.1 some
    cases given <;> simp [note, isFirst]
  rw [Returns, same] at returns
  exact returns some notIgnored

/-- A step does not come to a signal that was ignored. -/
theorem Returns.after_step (heeded : given ≠ .ok .ignored)
    (returns : (drain.note given).Returns result) : drain.ReturnsAfterStep result := by
  intro notIgnored
  cases given with
  | ok delivery =>
      refine returns ?_ ?_ <;> cases first : drain.first <;> simp_all [note]
  | error error =>
      refine returns ?_ ?_ <;> cases first : drain.first <;> simp_all [note]

end Drain

/-- No code of a client goes on but such as is done, unless a pass says that its first signal was
ignored. -/
def Terms.heeding : Terms σ Listener where
  client code := code = .done ()
  returns := Drain.Returns
  returnsAfterStep := Drain.ReturnsAfterStep

/-- No code goes on that had to be told that the event was ignored. -/
theorem Terms.hereditary_heeding {program : Program σ Listener} :
    Terms.heeding.Hereditary program where
  client := by
    rintro _ _ rfl ended
    cases ended
  result drain := drain.returns_result
  passed _ _ _ := Drain.Returns.of_note
  begun _ _ returns _ := returns
  ended _ _ _ := Drain.Returns.after_step

namespace Program

variable {program : Program σ Listener} {s t : Standing σ Listener} {event : String}
variable {readings : List Timestamp} {answer : Except InterpreterError Delivery}
variable {chronicle : Chronicle Listener} {execution : Execution σ Listener}

/-- The question is answered at once and changes nothing. -/
theorem answers_can (s : Standing σ Listener) (event : String) (now : Timestamp) :
    program.Answers [now] s (.can event) (program.can s.1 event) [] s := by
  have onward : program.Onward now s
      (fun next : Bool → Routine σ Listener Unit => [.client (.ask (.can event) next)]) []
      fun next => s.does [.client (next (program.can s.1 event))] := fun next => ⟨rfl, rfl⟩
  exact onward.brings

/-- An event that takes no transition is taken from the queue and ignored. -/
theorem carries_ignored (idle : s.Idle) (running : s.1.isRunning = true)
    (nothing : program.definition.select program.registry.guard? s.1.configuration s.1.context
      event = []) :
    program.Carries s (Thread.asking event) [.entered (.event event), .taken (.event event)] s
      fun next => [.client (next (.ok .ignored))] := by
  have isTaking : program.taking s.1 event none none = Thread.draining (some .ignored) none := by
    simp [taking, running, nothing]
  have taken : program.Carries s (Thread.asking event) _ _ _ := carries_taking idle running event
  rw [isTaking] at taken
  exact taken.trans (carries_released idle _ _ _)

/-- Code that goes on only if it is told that the event was ignored. -/
def goesOnIfIgnored : Except InterpreterError Delivery → Routine σ Listener Unit
  | .ok .ignored => .read fun _ => .done ()
  | _ => .done ()

/-- An event that takes a transition is not ignored, whatever goes on during its step and
after. -/
theorem Answers.not_ignored (idle : s.Idle) (running : s.1.isRunning = true)
    (takes : program.definition.select program.registry.guard? s.1.configuration s.1.context
      event ≠ [])
    (answers : program.Answers readings s (.send event) answer chronicle t) :
    answer ≠ .ok .ignored := by
  rintro rfl
  obtain ⟨first, others, isSelected⟩ := List.exists_cons_of_ne_nil takes
  let plan := program.definition.plan s.1.configuration (first :: others)
  have isTaking : program.taking s.1 event none none =
      Thread.stepping none none event plan plan.invocations s.1.context [] := by
    simp [taking, running, isSelected, plan]
  have taken : program.Carries s (Thread.asking event) _ _ _ := carries_taking idle running event
  rw [isTaking] at taken
  obtain ⟨later, _, rfl, onward⟩ := taken.split (by simp [Thread.stepping]) answers
  let begun : Execution σ Listener := Standing.does (s.1.occupied, s.2)
    (Thread.stepping none none event plan plan.invocations s.1.context [] goesOnIfIgnored)
  have heeds : begun.Keeps .heeding := by
    refine List.forall_mem_singleton.2 (.stepping ?_)
    rintro _ ⟨result, returns, rfl⟩
    have isDone : goesOnIfIgnored result = (.done () : Routine σ Listener Unit) := by
      have notIgnored := returns (by simp)
      unfold goesOnIfIgnored
      split
      · exact absurd rfl notIgnored
      · rfl
    exact .client isDone
  have run : program.RunsTo begun _ (begun.runAt program later) := runsTo_runAt later
  have ends : begun.runAt program later = _ := (onward goesOnIfIgnored).1
  have last := heeds.along Terms.hereditary_heeding (fun _ => trivial) run.steps
  rw [ends] at last
  cases List.forall_mem_singleton.1 last with
  | client isDone => cases isDone

/-- What an idle machine that runs in a legal configuration says of an event. It can take it
exactly if some active state declares a candidate for it that no guard holds back. If it cannot,
the event is ignored when it is sent, and nothing changes and nothing is told. If it can, no
answer says that the event was ignored. -/
theorem can_foretells_send {machine : MachineSpec}
    (built : machine.build = .ok program.definition) (reachable : program.Reachable execution)
    (inRange : execution.overflowed = false) (isIdle : execution.interpreter.busy = false)
    (running : execution.interpreter.isRunning = true)
    (legal : Configuration.isLegal program.definition.toStateTree
      execution.interpreter.configuration = true) (event : String) :
    (∀ now, program.Answers [now] execution.standing (.can event)
      (program.can execution.interpreter event) [] execution.standing) ∧
    (program.can execution.interpreter event = true ↔
      ∃ n ∈ execution.interpreter.configuration, program.definition.Handles
        program.registry.guard? execution.interpreter.context event n) ∧
    (program.can execution.interpreter event = false →
      (∃ count, ∀ readings : List Timestamp, readings.length = count →
        program.Answers readings execution.standing (.send event) (.ok .ignored)
          [.entered (.event event), .taken (.event event)] execution.standing) ∧
      ∀ readings answer chronicle t,
        program.Answers readings execution.standing (.send event) answer chronicle t →
        answer = .ok .ignored ∧ chronicle = [.entered (.event event), .taken (.event event)] ∧
          t = execution.standing) ∧
    (program.can execution.interpreter event = true → ∀ readings answer chronicle t,
      program.Answers readings execution.standing (.send event) answer chronicle t →
      answer ≠ .ok .ignored) := by
  have wellFormed := MachineSpec.wellFormed_of_build built
  have isLegal := (Configuration.isLegal_iff wellFormed.linked).1 legal
  obtain ⟨_, _, idle⟩ := reachable.driven inRange isIdle running (.done ())
  have isRunning : execution.standing.1.isRunning = true := running
  have takes_iff : program.can execution.interpreter event = true ↔
      program.definition.select program.registry.guard? execution.interpreter.configuration
        execution.interpreter.context event ≠ [] := by
    simp [can, running]
  refine ⟨answers_can execution.standing event,
    takes_iff.trans (wellFormed.select_ne_nil_iff isLegal), fun cannot => ?_, fun can => ?_⟩
  · have nothing := not_not.1 (mt takes_iff.2 (by simp [cannot]))
    have ignored := carries_ignored idle isRunning nothing
    exact ⟨ignored, fun _ _ _ _ answers => ignored.answer_eq answers⟩
  · exact fun _ _ _ _ answers => answers.not_ignored idle isRunning (takes_iff.1 can)

/-- A vault with everything that it names, once it has been started. -/
def shutVault : Execution Unit Empty :=
  Execution.run (vault ["greet", "lock", "log", "unlock"]) default 5
    (.ofClient (.fresh MachineSpec.vault.resolved none) () (.ask .start fun _ => .done ()))

/-- The vault says that it can be opened, and whoever opens it is not ignored. It says that it
cannot be shut, and a signal to shut it is ignored. -/
theorem vault_foretells :
    MachineSpec.vault.build = .ok (vault ["greet", "lock", "log", "unlock"]).definition ∧
      (vault ["greet", "lock", "log", "unlock"]).Reachable shutVault ∧
      (shutVault.overflowed, shutVault.interpreter.busy, shutVault.interpreter.isRunning,
        Configuration.isLegal MachineSpec.vault.resolved.toStateTree
          shutVault.interpreter.configuration) = (false, false, true, true) ∧
      (∀ readings answer chronicle t,
        (vault ["greet", "lock", "log", "unlock"]).Answers readings shutVault.standing
          (.send "open") answer chronicle t → answer ≠ .ok .ignored) ∧
      ∃ count, ∀ readings : List Timestamp, readings.length = count →
        (vault ["greet", "lock", "log", "unlock"]).Answers readings shutVault.standing
          (.send "shut") (.ok .ignored) [.entered (.event "shut"), .taken (.event "shut")]
          shutVault.standing := by
  have reachable : (vault ["greet", "lock", "log", "unlock"]).Reachable shutVault :=
    ⟨_, _, _, begins_vault, (runsTo_run default 5 _).steps⟩
  have facts : (shutVault.overflowed, shutVault.interpreter.busy,
      shutVault.interpreter.isRunning, Configuration.isLegal MachineSpec.vault.resolved.toStateTree
        shutVault.interpreter.configuration) = (false, false, true, true) := by cbv
  refine ⟨MachineSpec.vault_built, reachable, facts, ?_⟩
  simp only [Prod.mk.injEq] at facts
  obtain ⟨inRange, isIdle, running, legal⟩ := facts
  have foretells := can_foretells_send MachineSpec.vault_built reachable inRange isIdle running legal
  exact ⟨(foretells "open").2.2.2 (by cbv), ((foretells "shut").2.2.1 (by cbv)).1⟩

end Program

end Statechart
