import Statechart.Proofs.Answers
import Statechart.Proofs.TimerSignals

/-!
# Moving the clock

Moving the clock up to a limit fires one timer after another, each in a pass over the queue of
its own. Where no code makes requests these moves can be split and joined: a timer that falls
due before the clock halts on its way fires before it halts, at its deadline, and any other
finds the clock no later than its own deadline.
-/

namespace Statechart

variable {σ Listener : Type}

namespace Duration

variable {a b c : Duration}

theorem latest_nanos : (latest a b).nanos = max a.nanos b.nanos := by
  unfold latest
  split
  · next le => exact (Nat.max_eq_right le).symm
  · next notLe => exact (Nat.max_eq_left (Nat.le_of_not_le notLe)).symm

theorem add?_eq_some : a.add? b = some c ↔ a.nanos + b.nanos = c.nanos := by
  unfold add? ofNanos?
  constructor
  · intro sum
    split at sum
    · rw [← Option.some.inj sum]
    · cases sum
  · intro sum
    have inRange := sum ▸ c.inRange
    rw [dif_pos inRange]
    exact congrArg some (ext_nanos sum)

theorem le_add? (sum : a.add? b = some c) : a ≤ c := by
  have sum := add?_eq_some.1 sum
  rw [le_def]
  omega

/-- A sum may be formed in two steps if it is within the range. -/
theorem exists_add?_add? {d limit : Duration} (whole : a.add? b = some c)
    (reaches : d.add? c = some limit) :
    ∃ halt, d.add? a = some halt ∧ halt.add? b = some limit := by
  rw [add?_eq_some] at whole reaches
  have inRange := limit.inRange
  exact ⟨⟨d.nanos + a.nanos, by omega⟩, add?_eq_some.2 rfl, add?_eq_some.2 (by simp only; omega)⟩

end Duration

namespace Timers

variable {timers popped : Timers} {due timer : Timer} {earlier limit : Duration}

/-- The timers of a list that wait and fall due up to a limit. -/
def upTo (limit : Duration) (list : List Timer) : List Timer :=
  list.filter fun timer => !timer.fired && timer.deadline ≤ limit

theorem mem_upTo {list : List Timer} :
    timer ∈ upTo limit list ↔ timer ∈ list ∧ timer.fired = false ∧ timer.deadline ≤ limit := by
  simp [upTo]

theorem dueBefore_of_lt (sooner : due.deadline < timer.deadline) : due.dueBefore timer = true := by
  simp [Timer.dueBefore, sooner]

theorem not_dueBefore_of_lt (sooner : timer.deadline < due.deadline) :
    due.dueBefore timer = false := by
  have notSooner : ¬ due.deadline < timer.deadline := by
    rw [Duration.lt_def] at *
    omega
  have different : due.deadline ≠ timer.deadline := by
    rintro same
    rw [same, Duration.lt_def] at sooner
    omega
  simp [Timer.dueBefore, notSooner, different]

theorem upTo_cons (list : List Timer) : upTo limit (timer :: list) =
    if timer.fired = false ∧ timer.deadline ≤ limit then timer :: upTo limit list
    else upTo limit list := by
  simp [upTo, List.filter_cons]

/-- The first of the timers that fall due up to some time is the first that falls due at
all. -/
theorem first?_upTo {list : List Timer} (le : earlier ≤ limit)
    (isFirst : first? (upTo earlier list) = some due) : first? (upTo limit list) = some due := by
  induction list generalizing due with
  | nil => cases isFirst
  | cons head rest ih =>
      rw [upTo_cons] at isFirst ⊢
      by_cases soon : head.fired = false ∧ head.deadline ≤ earlier
      · rw [if_pos soon] at isFirst
        rw [if_pos ⟨soon.1, Nat.le_trans soon.2 le⟩]
        cases sooner : first? (upTo earlier rest) with
        | some other => simpa [first?, sooner, ih sooner] using isFirst
        | none =>
            -- what falls due later than the head does not come before it
            obtain rfl : head = due := by simpa [first?, sooner] using isFirst
            cases later : first? (upTo limit rest) with
            | none => simp [first?, later]
            | some other =>
                obtain ⟨isThere, waits, _⟩ := mem_upTo.1 (mem_of_first? later)
                have notSoon : ¬ other.deadline ≤ earlier := fun isSoon =>
                  first?_ne_none (List.ne_nil_of_mem (mem_upTo.2 ⟨isThere, waits, isSoon⟩)) sooner
                have isLater : head.deadline < other.deadline := by
                  rw [Duration.lt_def, Duration.le_def] at *
                  omega
                simp [first?, later, not_dueBefore_of_lt isLater]
      · rw [if_neg soon] at isFirst
        split
        · next inTime =>
          have isSoon := (mem_upTo.1 (mem_of_first? isFirst)).2.2
          have notSoon : ¬ head.deadline ≤ earlier := fun isSoon => soon ⟨inTime.1, isSoon⟩
          have isLater : due.deadline < head.deadline := by
            rw [Duration.lt_def, Duration.le_def] at *
            omega
          simp [first?, ih isFirst, dueBefore_of_lt isLater]
        · exact ih isFirst

theorem pop?_of_earlier (le : earlier ≤ limit) (pop : timers.pop? earlier = some (due, popped)) :
    timers.pop? limit = some (due, popped) := by
  simp only [pop?, Option.bind_eq_bind, Option.bind_eq_some_iff] at pop ⊢
  obtain ⟨first, isFirst, pop⟩ := pop
  exact ⟨first, first?_upTo le isFirst, pop⟩

theorem now_pop? (pop : timers.pop? limit = some (due, popped)) (le : timers.now ≤ limit) :
    popped.now ≤ limit := by
  obtain ⟨_, _, inTime, rfl⟩ := pop?_spec pop
  rw [Duration.le_def] at *
  simp only [Duration.latest_nanos]
  omega

/-- Where nothing falls due before, the clock may as well halt on the way to the next
deadline. -/
theorem pop?_settle (nothing : timers.pop? earlier = none) (le : timers.now ≤ earlier) :
    (timers.settle earlier).pop? limit = timers.pop? limit := by
  cases isDue : timers.due? limit with
  | none =>
      have stillNone : (timers.settle earlier).due? limit = none := isDue
      simp [pop?, isDue, stillNone]
  | some due =>
      have sameDue : (timers.settle earlier).due? limit = some due := isDue
      obtain ⟨isArmed, waits, _⟩ := mem_upTo.1 (mem_of_first? isDue)
      have notSoon : ¬ due.deadline ≤ earlier := by
        intro isSoon
        obtain ⟨other, popped, pop⟩ := exists_pop? isArmed waits isSoon
        cases nothing.symm.trans pop
      have sameNow : (timers.now.latest earlier).latest due.deadline =
          timers.now.latest due.deadline := by
        apply Duration.ext_nanos
        rw [Duration.le_def] at *
        simp only [Duration.latest_nanos]
        omega
      simp only [pop?, isDue, sameDue, Option.bind_eq_bind, Option.bind_some]
      simp only [settle, mark, sameNow]

theorem settle_settle (le : earlier ≤ limit) :
    (timers.settle earlier).settle limit = timers.settle limit := by
  have same : (timers.now.latest earlier).latest limit = timers.now.latest limit := by
    apply Duration.ext_nanos
    rw [Duration.le_def] at le
    simp only [Duration.latest_nanos]
    omega
  simp only [settle, same]

end Timers

namespace Interpreter

/-- The timer that is to fire next, no later than a limit, and the timers once it has. -/
def due? (interpreter : Interpreter Listener) (limit : Duration) : Option (Timer × Timers) :=
  if interpreter.isRunning then interpreter.timers.pop? limit else none

theorem fired_eq (interpreter : Interpreter Listener) (limit : Duration) :
    interpreter.fired limit =
      match interpreter.due? limit with
      | some (timer, _) => [.entered (.timer timer.key timer.generation)]
      | none => [] := by
  unfold fired due?
  cases interpreter.isRunning <;> rfl

/-- The clock has been moved up to a limit. -/
def settled (interpreter : Interpreter Listener) (limit : Duration) : Interpreter Listener :=
  { interpreter with timers := interpreter.timers.settle limit }

/-- An interpreter that was idle, once a timer has fired. -/
def woken (interpreter : Interpreter Listener) (timer : Timer) (timers : Timers) :
    Interpreter Listener :=
  { interpreter with timers, queue := [.timer timer.key timer.generation], busy := true }

end Interpreter

namespace Program

variable {program : Program σ Listener} {s t u : Standing σ Listener} {limit : Duration}
variable {readings : List Timestamp} {fired : Nat} {result : Except InterpreterError Nat}
variable {chronicle : Chronicle Listener}

/-- Moving the clock of an idle machine up to a limit, along some readings, where some timers
have fired before: no timer is due any more, or one is, and its pass leads on or fails. -/
inductive Advances (program : Program σ Listener) (limit : Duration) :
    List Timestamp → Standing σ Listener → Nat → Except InterpreterError Nat →
      Chronicle Listener → Standing σ Listener → Prop
  | settles (now : Timestamp) {s : Standing σ Listener} (fired : Nat)
      (nothing : s.1.due? limit = none) :
      Advances program limit [now] s fired (.ok fired) [] (s.1.settled limit, s.2)
  | fires (now : Timestamp) {s t u : Standing σ Listener} {timer : Timer} {timers : Timers}
      {earlier later : List Timestamp} {fired : Nat} {chronicle further : Chronicle Listener}
      {delivery : Delivery} {result : Except InterpreterError Nat}
      (due : s.1.due? limit = some (timer, timers))
      (passes : program.Passes earlier (s.1.woken timer timers, s.2) beginning chronicle
        (.ok delivery) t)
      (idle : t.Idle) (sameNow : t.1.now = timers.now)
      (onward : Advances program limit later t (fired + 1) result further u) :
      Advances program limit (now :: (earlier ++ later)) s fired result
        (.entered (.timer timer.key timer.generation) :: (chronicle ++ further)) u
  | fails (now : Timestamp) {s t : Standing σ Listener} {timer : Timer} {timers : Timers}
      {earlier : List Timestamp} {fired : Nat} {chronicle : Chronicle Listener}
      {error : InterpreterError} (due : s.1.due? limit = some (timer, timers))
      (passes : program.Passes earlier (s.1.woken timer timers, s.2) beginning chronicle
        (.error error) t) (idle : t.Idle) :
      Advances program limit (now :: earlier) s fired (.error error)
        (.entered (.timer timer.key timer.generation) :: chronicle) t

/-- What goes on with the result of a pass that a timer has begun. -/
def afterTimer (limit : Duration) (fired : Nat)
    (resume : Except InterpreterError Nat → Work σ Listener) :
    Except InterpreterError Delivery → Work σ Listener
  | .ok _ => .advancing limit (fired + 1) resume
  | .error error => resume (.error error)

theorem onward_advancing (program : Program σ Listener) (s : Standing σ Listener)
    (now : Timestamp) (limit : Duration) (fired : Nat) :
    program.Onward now s (fun resume => [.advancing limit fired resume]) (s.1.fired limit)
      fun resume =>
        match s.1.due? limit with
        | none => Standing.does (s.1.settled limit, s.2) [resume (.ok fired)]
        | some (timer, timers) =>
          (Standing.does ({ s.1 with timers }, s.2) [.advancing limit fired resume]).deliver
            (.timer timer.key timer.generation) (afterTimer limit fired resume) [] :=
  fun _ => ⟨rfl, rfl⟩

theorem onward_settled (now : Timestamp) (fired : Nat) (nothing : s.1.due? limit = none) :
    program.Onward now s (fun resume => [.advancing limit fired resume]) [] fun resume =>
      Standing.does (s.1.settled limit, s.2) [resume (.ok fired)] := by
  have onward := onward_advancing program s now limit fired
  rw [Interpreter.fired_eq, nothing] at onward
  exact onward

theorem onward_woken (now : Timestamp) (fired : Nat) {timer : Timer} {timers : Timers}
    (idle : s.Idle) (due : s.1.due? limit = some (timer, timers)) :
    program.Onward now s (fun resume => [.advancing limit fired resume])
      [.entered (.timer timer.key timer.generation)] fun resume =>
        Standing.does (s.1.woken timer timers, s.2)
          (beginning (afterTimer limit fired resume)) := by
  have onward := onward_advancing program s now limit fired
  rw [Interpreter.fired_eq, due] at onward
  have running : s.1.isRunning = true := by
    by_contra halted
    simp [Interpreter.due?, halted] at due
  have idle : Standing.Idle ({ s.1 with timers }, s.2) := ⟨idle.busy, idle.queue, idle.pendingStop⟩
  intro resume
  obtain ⟨steps, happens⟩ := onward resume
  exact ⟨steps.trans (congrArg some (deliver_of_idle idle running)), happens⟩

/-- The small steps do what moving the clock comes to. -/
theorem Advances.brings (advances : program.Advances limit readings s fired result chronicle u)
    (idle : s.Idle) :
    program.Brings readings s (fun resume => [.advancing limit fired resume]) chronicle u
      fun resume => [resume result] := by
  induction advances with
  | settles now fired nothing => exact (onward_settled now fired nothing).brings
  | @fires now _ _ _ _ _ _ _ fired _ _ _ _ due passes idleAfter sameNow onward ih =>
      have wakes : program.Onward now _ _ _ _ := onward_woken now fired idle due
      have passes : program.Brings _ _ (fun resume => beginning (afterTimer limit fired resume))
        _ _ _ := fun resume => passes (afterTimer limit fired resume)
      exact wakes.brings.append (passes.append (ih idleAfter))
  | @fails now _ _ _ _ _ fired _ _ due passes =>
      have wakes : program.Onward now _ _ _ _ := onward_woken now fired idle due
      exact wakes.brings.append fun resume => passes (afterTimer limit fired resume)

/-- A run that moves the clock and comes back to the driving code is one of these moves. -/
theorem exists_advances (discreet : program.Discreet) (idle : s.Idle)
    (ends : (s.does [.advancing limit fired fun _ => .client (.done ())]).runAt program readings =
      t.does [.client (.done ())]) :
    ∃ result chronicle u, program.Advances limit readings s fired result chronicle u := by
  generalize bound : readings.length = count
  -- every pass takes at least the reading at which its timer fires
  induction count using Nat.strongRecOn generalizing readings s fired with
  | ind count ih =>
      cases readings with
      | nil => cases (Standing.does_inj ends).2
      | cons now readings =>
          cases due : s.1.due? limit with
          | none =>
              rw [Execution.runAt_cons (onward_settled now fired due _).1] at ends
              obtain rfl := runAt_client_done rfl ends
              exact ⟨_, _, _, .settles now fired due⟩
          | some popped =>
              obtain ⟨timer, timers⟩ := popped
              rw [Execution.runAt_cons (onward_woken now fired idle due _).1] at ends
              have noStop : (s.1.woken timer timers).pendingStop = none := idle.pendingStop
              obtain ⟨earlier, later, chronicle, result, u, rfl, passes, idle, sameNow, onward⟩ :=
                exists_passes (s := (s.1.woken timer timers, s.2)) beginning_passing discreet
                  noStop ends
              cases result with
              | error error =>
                  obtain rfl := runAt_client_done rfl onward
                  exact ⟨_, _, _, by simpa using Advances.fails now due passes idle⟩
              | ok delivery =>
                  have fewer : later.length < count := by
                    rw [← bound, List.length_cons, List.length_append]
                    omega
                  obtain ⟨result, further, v, advances⟩ := ih later.length fewer idle onward rfl
                  exact ⟨_, _, _, .fires now due passes idle sameNow advances⟩

theorem Advances.idle (advances : program.Advances limit readings s fired result chronicle u)
    (idle : s.Idle) : u.Idle := by
  induction advances with
  | settles now fired nothing => exact ⟨idle.busy, idle.queue, idle.pendingStop⟩
  | fires now due passes idleAfter sameNow onward ih => exact ih idleAfter
  | fails now due passes idleAfter => exact idleAfter

theorem pop?_of_due? {timer : Timer} {timers : Timers}
    (due : s.1.due? limit = some (timer, timers)) :
    s.1.timers.pop? limit = some (timer, timers) := by
  unfold Interpreter.due? at due
  split at due
  · exact due
  · cases due

/-- The clock is at the limit in the end. -/
theorem Advances.now_eq {count : Nat}
    (advances : program.Advances limit readings s fired (.ok count) chronicle u)
    (le : s.1.now ≤ limit) : u.1.now = limit := by
  generalize isOk : Except.ok count = result at advances
  induction advances with
  | settles now fired nothing =>
      exact Duration.ext_nanos (Duration.latest_nanos.trans (Nat.max_eq_right le))
  | fires now due passes idleAfter sameNow onward ih =>
      apply ih _ isOk
      rw [sameNow]
      exact Timers.now_pop? (pop?_of_due? due) le
  | fails => cases isOk

/-- How many timers have fired before makes no difference. -/
theorem Advances.shift {count : Nat}
    (advances : program.Advances limit readings s fired (.ok count) chronicle u) (other : Nat) :
    ∃ more, count = fired + more ∧
      program.Advances limit readings s other (.ok (other + more)) chronicle u := by
  generalize isOk : Except.ok count = result at advances
  induction advances generalizing other with
  | settles now fired nothing =>
      cases isOk
      exact ⟨0, rfl, .settles now other nothing⟩
  | fires now due passes idleAfter sameNow onward ih =>
      obtain ⟨more, rfl, advances⟩ := ih (other + 1) isOk
      rw [Nat.add_right_comm, Nat.add_assoc] at advances
      refine ⟨more + 1, by omega, .fires now due passes idleAfter sameNow advances⟩
  | fails => cases isOk

section Halt

variable {halt : Duration} {earlier later : List Timestamp} {before after : Chronicle Listener}
variable {count : Nat}

/-- What is due when the clock has halted on the way was due before, or as soon. -/
theorem due?_settled (limit : Duration) (nothing : s.1.due? halt = none) (le : s.1.now ≤ halt) :
    (s.1.settled halt).due? limit = s.1.due? limit := by
  unfold Interpreter.due? at *
  have sameRunning : (s.1.settled halt).isRunning = s.1.isRunning := rfl
  rw [sameRunning]
  split
  · next running =>
    rw [if_pos running] at nothing
    exact Timers.pop?_settle nothing le
  · rfl

theorem due?_of_earlier {timer : Timer} {timers : Timers} (le : halt ≤ limit)
    (due : s.1.due? halt = some (timer, timers)) : s.1.due? limit = some (timer, timers) := by
  unfold Interpreter.due? at *
  split at due
  · next running =>
    rw [if_pos running]
    exact Timers.pop?_of_earlier le due
  · cases due

theorem settled_settled (le : halt ≤ limit) :
    (s.1.settled halt).settled limit = s.1.settled limit := by
  simp only [Interpreter.settled, Timers.settle_settle le]

/-- The clock may go on after a halt as if it had not halted. -/
theorem Advances.join (le : halt ≤ limit)
    (first : program.Advances halt earlier s fired (.ok count) before t)
    (second : program.Advances limit later t count result after u) (inTime : s.1.now ≤ halt) :
    ∃ readings, program.Advances limit readings s fired result (before ++ after) u := by
  generalize isOk : Except.ok count = halted at first
  induction first with
  | settles now fired nothing =>
      cases isOk
      have same := due?_settled limit nothing inTime
      cases second with
      | settles now _ still =>
          rw [settled_settled le]
          exact ⟨[now], .settles now _ (same.symm.trans still)⟩
      | fires now due passes idleAfter sameNow onward =>
          exact ⟨_, .fires now (same.symm.trans due) passes idleAfter sameNow onward⟩
      | fails now due passes idleAfter =>
          exact ⟨_, .fails now (same.symm.trans due) passes idleAfter⟩
  | fires now due passes idleAfter sameNow onward ih =>
      have inTime := sameNow ▸ Timers.now_pop? (pop?_of_due? due) inTime
      obtain ⟨readings, advances⟩ := ih second inTime isOk
      have joined := Advances.fires now (due?_of_earlier le due) passes idleAfter sameNow advances
      exact ⟨_, by simpa using joined⟩
  | fails => cases isOk

/-- The clock may halt on the way. -/
theorem Advances.split (le : halt ≤ limit)
    (advances : program.Advances limit readings s fired (.ok count) chronicle u)
    (inTime : s.1.now ≤ halt) :
    ∃ earlier later passed before after t,
      program.Advances halt earlier s fired (.ok passed) before t ∧
      program.Advances limit later t passed (.ok count) after u := by
  generalize isOk : Except.ok count = result at advances ⊢
  induction advances with
  | @settles now s fired nothing =>
      have early : s.1.due? halt = none := by
        by_contra some
        obtain ⟨popped, due⟩ := Option.ne_none_iff_exists'.1 some
        cases nothing.symm.trans (due?_of_earlier le due)
      have still := (due?_settled limit early inTime).trans nothing
      have onward : program.Advances limit [now] (s.1.settled halt, s.2) fired (.ok fired) [] _ :=
        .settles now fired still
      rw [settled_settled le] at onward
      exact ⟨_, _, _, _, _, _, .settles now fired early, onward⟩
  | @fires now s _ _ timer timers _ _ fired _ _ _ _ due passes idleAfter sameNow onward ih =>
      cases early : s.1.due? halt with
      | none =>
          have still := (due?_settled limit early inTime).trans due
          exact ⟨_, _, _, _, _, _, .settles now fired early,
            .fires (s := (s.1.settled halt, s.2)) now still passes idleAfter sameNow onward⟩
      | some popped =>
          obtain rfl : (timer, timers) = popped :=
            Option.some.inj (due.symm.trans (due?_of_earlier le early))
          have inTime := sameNow ▸ Timers.now_pop? (pop?_of_due? early) inTime
          obtain ⟨_, _, _, _, _, _, first, second⟩ := ih inTime isOk
          exact ⟨_, _, _, _, _, _, .fires now early passes idleAfter sameNow first, second⟩
  | fails => cases isOk

end Halt

end Program

end Statechart
