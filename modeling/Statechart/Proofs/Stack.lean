import Statechart.Execution

/-!
# The stack of work

While an interpreter is busy exactly one piece of the work in progress owns it: the pass
over the queue, or the step that the pass waits for. Everything below the owner has been
interrupted by it, everything above it only runs listeners. Once the owner is done, what
goes on in its place owns nothing.
-/

namespace Statechart

variable {σ Listener : Type}

namespace Origin

/-- What goes on once a step and the pass over the queue are done. -/
def LeadsTo {W : Type} : Origin W → W → Prop
  | .start resume, work => ∃ result, work = resume result
  | .signal _ drain, work => ∃ result, work = drain.resume result

end Origin

namespace Work

/-- Work that owns the interpreter, or does not; its steps are sound. -/
inductive Shaped (sound : RunningStep (Work σ Listener) → Prop) : Bool → Work σ Listener → Prop
  | client (code : Routine σ Listener Unit) : Shaped sound false (.client code)
  | listening (code : Routine σ Listener Unit) : Shaped sound false (.listening code)
  | notifying (subscribers : List (Nat × Listener)) (snapshot : Snapshot) :
      Shaped sound false (.notifying subscribers snapshot)
  | draining {drain : Drain (Work σ Listener)}
      (after : ∀ result, Shaped sound false (drain.resume result)) :
      Shaped sound true (.draining drain)
  | stepping {step : RunningStep (Work σ Listener)} (isSound : sound step)
      (after : ∀ work, step.origin.LeadsTo work → Shaped sound false work) :
      Shaped sound true (.stepping step)
  | acting {step : RunningStep (Work σ Listener)} (call : Invocation)
      (code : Routine σ Listener (Except String ActionEffect)) (isSound : sound step)
      (after : ∀ work, step.origin.LeadsTo work → Shaped sound false work) :
      Shaped sound true (.acting step call code)
  | advancing {owner : Bool} (limit : Duration) (fired : Nat)
      {resume : Except InterpreterError Nat → Work σ Listener}
      (after : ∀ result, Shaped sound owner (resume result)) :
      Shaped sound owner (.advancing limit fired resume)

/-- Work that waits for the answer to a request, and how it goes on with it. -/
inductive Asks : Work σ Listener → (request : Request Listener) →
    (request.Answer → Work σ Listener) → Prop
  | client (request : Request Listener) (next : request.Answer → Routine σ Listener Unit) :
      Asks (.client (.ask request next)) request fun answer => .client (next answer)
  | listening (request : Request Listener) (next : request.Answer → Routine σ Listener Unit) :
      Asks (.listening (.ask request next)) request fun answer => .listening (next answer)
  | acting (step : RunningStep (Work σ Listener)) (call : Invocation)
      (request : Request Listener)
      (next : request.Answer → Routine σ Listener (Except String ActionEffect)) :
      Asks (.acting step call (.ask request next)) request
        fun answer => .acting step call (next answer)

/-- A request is met at once, on top of the work below. -/
theorem Asks.step_eq {program : Program σ Listener} {now : Timestamp}
    {execution : Execution σ Listener} {asking : Work σ Listener} {rest : List (Work σ Listener)}
    {request : Request Listener} {resume : request.Answer → Work σ Listener}
    (asks : asking.Asks request resume) (isWork : execution.work = asking :: rest) :
    execution.step? program now = some (execution.meet program rest request resume) := by
  cases asks <;> simp [Execution.step?, isWork, Execution.proceed]

variable {sound other : RunningStep (Work σ Listener) → Prop} {owner busy : Bool}
variable {work : Work σ Listener} {rest : List (Work σ Listener)}

/-- Work that does not own the interpreter holds no step. -/
theorem Shaped.of_idle (shaped : Shaped sound owner work) (idle : owner = false) :
    Shaped other owner work := by
  induction shaped with
  | client code => exact .client code
  | listening code => exact .listening code
  | notifying subscribers snapshot => exact .notifying subscribers snapshot
  | draining => cases idle
  | stepping => cases idle
  | acting => cases idle
  | advancing limit fired after ih => exact .advancing limit fired fun result => ih result idle

/-- What becomes of a signal does not change where a pass over the queue leads. -/
theorem Shaped.note {drain : Drain (Work σ Listener)}
    (after : ∀ result, Shaped sound false (drain.resume result))
    (result : Except InterpreterError Delivery) :
    Shaped sound true (.draining (drain.note result)) := by
  cases result with
  | ok delivery => exact .draining after
  | error error => exact .draining after

/-- After a step the pass over the queue goes on, in front of what its origin leads to. -/
theorem Shaped.drainAfter {origin : Origin (Work σ Listener)}
    (after : ∀ work, origin.LeadsTo work → Shaped sound false work) (delivery : Delivery) :
    Shaped sound true (.draining (Execution.drainAfter origin delivery)) := by
  cases origin with
  | start resume => exact .draining fun result => after _ ⟨_, rfl⟩
  | signal fired drain => exact .note (fun result => after _ ⟨result, rfl⟩) (.ok delivery)

/-- A stack of work with one owner, if the interpreter is busy, and else with none. -/
def Stacked (sound : RunningStep (Work σ Listener) → Prop) : Bool → List (Work σ Listener) → Prop
  | busy, [] => busy = false
  | busy, work :: rest =>
    (Shaped sound false work ∧ Stacked sound busy rest) ∨
      (busy = true ∧ Shaped sound true work ∧ Stacked sound false rest)

/-- Room on a stack for work that owns the interpreter, or does not. -/
def Room (sound : RunningStep (Work σ Listener) → Prop) (owner busy : Bool)
    (rest : List (Work σ Listener)) : Prop :=
  if owner then busy = true ∧ Stacked sound false rest else Stacked sound busy rest

theorem stacked_cons_iff :
    Stacked sound busy (work :: rest) ↔
      ∃ owner, Shaped sound owner work ∧ Room sound owner busy rest := by
  simp [Stacked, Room, and_left_comm]

theorem Room.push (room : Room sound owner busy rest) (shaped : Shaped sound owner work) :
    Stacked sound busy (work :: rest) := stacked_cons_iff.2 ⟨owner, shaped, room⟩

theorem Room.owned (room : Room sound true busy rest) :
    busy = true ∧ Stacked sound false rest := room

/-- Nobody owns an interpreter that is not busy. -/
theorem Room.idle (room : Room sound owner false rest) :
    owner = false ∧ Stacked sound false rest := by
  cases owner with
  | false => exact ⟨rfl, room⟩
  | true => cases room.1

theorem Stacked.of_idle (stacked : Stacked sound false rest) : Stacked other false rest := by
  induction rest with
  | nil => rfl
  | cons work rest ih =>
      obtain ⟨owner, shaped, room⟩ := stacked_cons_iff.1 stacked
      obtain ⟨rfl, below⟩ := room.idle
      exact stacked_cons_iff.2 ⟨false, shaped.of_idle rfl, ih below⟩

theorem Stacked.notice (stacked : Stacked sound busy rest)
    (notice : Option (List (Nat × Listener) × Snapshot)) :
    Stacked sound busy (Execution.noticeWork notice ++ rest) := by
  cases notice with
  | none => exact stacked
  | some pair => exact .inl ⟨.notifying pair.1 pair.2, stacked⟩

end Work

end Statechart
