import Statechart.Proofs.Progress

/-!
# Armed timers

The armed timers are in the order of their keys, so there is at most one for a delayed
transition. Handing out, giving back, disarming and arming are described by what is armed
afterwards; arming alone issues generations, always new ones.
-/

namespace Statechart

theorem Duration.add?_eq_none {a b : Duration} :
    a.add? b = none ↔ 18_446_744_073_709_551_616 * 1_000_000_000 ≤ a.nanos + b.nanos := by
  simp [add?, ofNanos?]

namespace TimerKey

variable {a b c : TimerKey}

theorem before_iff :
    a.before b = true ↔ a.state < b.state ∨ (a.state = b.state ∧ a.index < b.index) := by
  simp [before]

theorem not_before_self : ¬ a.before a = true := by
  rw [before_iff]
  omega

theorem before_trans (first : a.before b = true) (second : b.before c = true) :
    a.before c = true := by
  rw [before_iff] at *
  omega

theorem before_of_not (notBefore : ¬ a.before b = true) (different : a ≠ b) :
    b.before a = true := by
  rw [before_iff] at *
  have apart : a.state ≠ b.state ∨ a.index ≠ b.index := by
    by_contra same
    push Not at same
    obtain ⟨sameState, sameIndex⟩ := same
    cases a
    cases b
    simp_all
  omega

end TimerKey

namespace Timers

variable {timers popped : Timers} {timer due new : Timer} {limit : Duration}
variable {key : TimerKey} {generation : Nat} {fired : Bool}

/-- The armed timers are in the order of their keys. -/
def Sorted (timers : Timers) : Prop :=
  timers.armed.Pairwise fun a b => a.key.before b.key = true

theorem Sorted.nodup (sorted : timers.Sorted) : (timers.armed.map (·.key)).Nodup := by
  refine List.pairwise_map.2 (List.Pairwise.imp ?_ sorted)
  intro a b isBefore same
  rw [same] at isBefore
  exact TimerKey.not_before_self isBefore

/-- One timer at most is armed for a delayed transition. -/
theorem Sorted.unique (sorted : timers.Sorted) {a b : Timer} (isArmed : a ∈ timers.armed)
    (other : b ∈ timers.armed) (same : a.key = b.key) : a = b :=
  List.inj_on_of_nodup_map sorted.nodup isArmed other same

theorem sorted_nil (now : Duration) (generations : Nat) : Sorted ⟨now, [], generations⟩ := .nil

theorem sorted_filter (sorted : timers.Sorted) (kept : Timer → Bool) :
    Sorted { timers with armed := timers.armed.filter kept } := List.Pairwise.filter _ sorted

section Place

variable {list : List Timer}

theorem mem_place_iff (sorted : list.Pairwise fun a b => a.key.before b.key = true) :
    timer ∈ place new list ↔ timer = new ∨ (timer ∈ list ∧ timer.key ≠ new.key) := by
  induction list with
  | nil => simp [place]
  | cons head rest ih =>
      obtain ⟨first, sorted⟩ := List.pairwise_cons.1 sorted
      simp only [place]
      split
      · next isBefore =>
        -- everything in the list comes after the new timer
        have apart : ∀ other ∈ head :: rest, other.key ≠ new.key := by
          intro other member same
          rcases List.mem_cons.1 member with rfl | later
          · exact TimerKey.not_before_self (same ▸ isBefore)
          · exact TimerKey.not_before_self
              (same ▸ TimerKey.before_trans isBefore (first other later))
        rw [List.mem_cons]
        exact or_congr_right ⟨fun member => ⟨member, apart timer member⟩, fun both => both.1⟩
      · split
        · next _ same =>
          have apart : ∀ other ∈ rest, other.key ≠ new.key := by
            intro other later again
            exact TimerKey.not_before_self (again.trans same ▸ first other later)
          simp only [List.mem_cons]
          constructor
          · rintro (isNew | later)
            · exact .inl isNew
            · exact .inr ⟨.inr later, apart timer later⟩
          · rintro (isNew | ⟨rfl | later, different⟩)
            · exact .inl isNew
            · exact absurd same.symm different
            · exact .inr later
        · next _ different =>
          simp only [List.mem_cons, ih sorted]
          constructor
          · rintro (rfl | isNew | ⟨later, apart⟩)
            · exact .inr ⟨.inl rfl, fun same => different same.symm⟩
            · exact .inl isNew
            · exact .inr ⟨.inr later, apart⟩
          · rintro (isNew | ⟨rfl | later, apart⟩)
            · exact .inr (.inl isNew)
            · exact .inl rfl
            · exact .inr (.inr ⟨later, apart⟩)

theorem sorted_place (sorted : list.Pairwise fun a b => a.key.before b.key = true) :
    (place new list).Pairwise fun a b => a.key.before b.key = true := by
  induction list with
  | nil => exact List.pairwise_singleton _ _
  | cons head rest ih =>
      obtain ⟨first, sortedRest⟩ := List.pairwise_cons.1 sorted
      simp only [place]
      split
      · next isBefore =>
        refine List.pairwise_cons.2 ⟨fun other member => ?_, sorted⟩
        rcases List.mem_cons.1 member with rfl | later
        · exact isBefore
        · exact TimerKey.before_trans isBefore (first other later)
      · next notBefore =>
        split
        · next same =>
          refine List.pairwise_cons.2 ⟨fun other later => ?_, sortedRest⟩
          rw [same]
          exact first other later
        · next different =>
          refine List.pairwise_cons.2 ⟨fun other member => ?_, ih sortedRest⟩
          rcases mem_place member with rfl | later
          · exact TimerKey.before_of_not notBefore different
          · exact first other later

end Place

theorem mem_mark : timer ∈ (timers.mark key generation fired).armed ↔
    ∃ before ∈ timers.armed, timer =
      if before.key = key ∧ before.generation = generation then { before with fired }
      else before := by
  simp [mark, eq_comm]

theorem sorted_mark (sorted : timers.Sorted) : (timers.mark key generation fired).Sorted := by
  refine List.pairwise_map.2 (List.Pairwise.imp ?_ sorted)
  intro a b isBefore
  have sameKey : ∀ timer : Timer, (if timer.key = key ∧ timer.generation = generation then
      { timer with fired } else timer).key = timer.key := by
    intro timer
    split <;> rfl
  rw [sameKey, sameKey]
  exact isBefore

/-- What is handed out was armed and due. -/
theorem pop?_spec (pop : timers.pop? limit = some (due, popped)) :
    due ∈ timers.armed ∧ due.fired = false ∧ due.deadline ≤ limit ∧
      popped = { timers.mark due.key due.generation true with
        now := timers.now.latest due.deadline } := by
  simp only [pop?, Option.bind_eq_bind, Option.bind_eq_some_iff] at pop
  obtain ⟨first, isFirst, pop⟩ := pop
  obtain ⟨rfl, rfl⟩ := Prod.mk.inj (Option.some.inj pop)
  have member := mem_of_first? isFirst
  simp only [List.mem_filter, Bool.and_eq_true, Bool.not_eq_true', decide_eq_true_eq] at member
  exact ⟨member.1, member.2.1, member.2.2, rfl⟩

theorem first?_ne_none {list : List Timer} (nonempty : list ≠ []) : first? list ≠ none := by
  cases list with
  | nil => exact absurd rfl nonempty
  | cons timer rest =>
      simp only [first?]
      split
      · split <;> simp
      · simp

/-- As long as a timer waits and is due, some timer is handed out. -/
theorem exists_pop? (isArmed : timer ∈ timers.armed) (waits : timer.fired = false)
    (isDue : timer.deadline ≤ limit) : ∃ due popped, timers.pop? limit = some (due, popped) := by
  have candidate :
      timer ∈ timers.armed.filter fun timer => !timer.fired && timer.deadline ≤ limit := by
    simp [isArmed, waits, isDue]
  cases isFirst : timers.due? limit with
  | none => exact absurd isFirst (first?_ne_none (List.ne_nil_of_mem candidate))
  | some due => exact ⟨due, _, by simp [pop?, isFirst]; rfl⟩

/-- What arming a list of timers leads to: what was armed stays so unless it is replaced, and
what is new waits for its deadline under a new generation. -/
structure Arming (entries : List (TimerKey × Duration)) (before after : Timers) : Prop where
  sorted : after.Sorted
  now : after.now = before.now
  grows : before.generations ≤ after.generations
  kept : ∀ timer ∈ before.armed, timer.key ∉ entries.map (·.1) → timer ∈ after.armed
  covers : ∀ key ∈ entries.map (·.1), ∃ timer ∈ after.armed, timer.key = key
  origin : ∀ timer ∈ after.armed,
    (timer ∈ before.armed ∧ timer.key ∉ entries.map (·.1)) ∨
      ∃ delay, (timer.key, delay) ∈ entries ∧ before.now.add? delay = some timer.deadline ∧
        timer.fired = false ∧ before.generations < timer.generation ∧
        timer.generation ≤ after.generations

theorem arming_nil (sorted : timers.Sorted) : Arming [] timers timers where
  sorted := sorted
  now := rfl
  grows := Nat.le_refl _
  kept _ isArmed _ := isArmed
  covers _ member := by cases member
  origin _ isArmed := .inl ⟨isArmed, by simp⟩

/-- One timer is armed, and then the others. -/
theorem Arming.cons {delay : Duration} {rest : List (TimerKey × Duration)} {next after : Timers}
    (sorted : timers.Sorted) (arms : timers.arm? key delay = some next)
    (arming : Arming rest next after) : Arming ((key, delay) :: rest) timers after := by
  simp only [arm?, Option.bind_eq_bind, Option.bind_eq_some_iff] at arms
  obtain ⟨deadline, isDeadline, arms⟩ := arms
  obtain rfl := Option.some.inj arms
  let new : Timer := ⟨key, deadline, timers.generations + 1, false⟩
  have placed : ∀ timer : Timer, timer ∈ place new timers.armed ↔
      timer = new ∨ (timer ∈ timers.armed ∧ timer.key ≠ key) := fun timer => mem_place_iff sorted
  have grows := arming.grows
  refine ⟨arming.sorted, arming.now, by simp only at grows; omega, ?_, ?_, ?_⟩
  · intro timer isArmed notNamed
    simp only [List.map_cons, List.mem_cons, not_or] at notNamed
    exact arming.kept timer ((placed timer).2 (.inr ⟨isArmed, notNamed.1⟩)) notNamed.2
  · intro other named
    by_cases later : other ∈ rest.map (·.1)
    · exact arming.covers other later
    · obtain rfl : other = key := by simpa [later] using named
      exact ⟨_, arming.kept _ ((placed _).2 (.inl rfl)) later, rfl⟩
  · intro timer isArmed
    rcases arming.origin timer isArmed with
      ⟨before, notLater⟩ | ⟨delay, named, isDeadline, waits, isNew, issued⟩
    · rcases (placed timer).1 before with rfl | ⟨before, another⟩
      · exact .inr ⟨delay, .head _, isDeadline, rfl, Nat.lt_succ_self _, grows⟩
      · exact .inl ⟨before, by simpa [another] using notLater⟩
    · exact .inr ⟨delay, .tail _ named, isDeadline, waits, Nat.lt_of_succ_lt isNew, issued⟩

theorem arming_armAll {entries : List (TimerKey × Duration)} {after : Timers}
    (sorted : timers.Sorted) (arms : timers.armAll entries = (after, true)) :
    Arming entries timers after := by
  induction entries generalizing timers with
  | nil =>
      obtain ⟨rfl, _⟩ := Prod.mk.inj arms
      exact arming_nil sorted
  | cons entry rest ih =>
      obtain ⟨key, delay⟩ := entry
      simp only [armAll] at arms
      cases armed : timers.arm? key delay with
      | none => simp [armed] at arms
      | some next =>
          rw [armed] at arms
          have sortedNext : next.Sorted := by
            simp only [arm?, Option.bind_eq_bind, Option.bind_eq_some_iff] at armed
            obtain ⟨deadline, _, armed⟩ := armed
            obtain rfl := Option.some.inj armed
            exact sorted_place sorted
          exact (ih sortedNext arms).cons sorted armed

/-- All timers of a list are armed unless the deadline of one is beyond the range of the clock. -/
theorem armAll_eq_false_iff {entries : List (TimerKey × Duration)} :
    (timers.armAll entries).2 = false ↔ ∃ entry ∈ entries, timers.now.add? entry.2 = none := by
  induction entries generalizing timers with
  | nil => simp [armAll]
  | cons entry rest ih =>
      obtain ⟨key, delay⟩ := entry
      rw [List.exists_mem_cons_iff]
      cases deadline : timers.now.add? delay with
      | none => simp [armAll, arm?, deadline]
      | some deadline => simp [armAll, arm?, deadline, ih]

/-- While the clock reads zero no deadline is beyond its range. -/
theorem arms_at_zero (entries : List (TimerKey × Duration)) (atZero : timers.now = .zero) :
    (timers.armAll entries).2 = true := by
  rw [← Bool.not_eq_false, armAll_eq_false_iff]
  rintro ⟨⟨key, delay⟩, _, beyond⟩
  rw [Duration.add?_eq_none, atZero, Duration.zero, Nat.zero_add] at beyond
  exact absurd delay.inRange (Nat.not_lt.2 beyond)

theorem disarmAll_eq (states : List Nat) :
    (timers.disarmAll states).now = timers.now ∧
      (timers.disarmAll states).generations = timers.generations := by
  induction states generalizing timers with
  | nil => exact ⟨rfl, rfl⟩
  | cons state rest ih => exact ih

theorem sorted_disarmAll (sorted : timers.Sorted) (states : List Nat) :
    (timers.disarmAll states).Sorted := by
  induction states generalizing timers with
  | nil => exact sorted
  | cons state rest ih => exact ih (sorted_filter sorted _)

end Timers

namespace Definition

variable {definition : Definition} {states : List Nat} {key : TimerKey}

theorem mem_timersOf {delay : Duration} :
    (key, delay) ∈ definition.timersOf states ↔
      key.state ∈ states ∧ ∃ delayed, definition.delayed? key = some delayed ∧
        delayed.delay = delay := by
  simp only [timersOf, List.mem_flatMap, List.mem_mapIdx, delayed?]
  constructor
  · rintro ⟨state, isThere, index, inRange, same⟩
    obtain ⟨rfl, rfl⟩ := Prod.mk.inj same
    exact ⟨isThere, _, List.getElem?_eq_getElem inRange, rfl⟩
  · rintro ⟨isThere, delayed, found, rfl⟩
    obtain ⟨inRange, rfl⟩ := List.getElem?_eq_some_iff.1 found
    exact ⟨key.state, isThere, key.index, inRange, rfl⟩

theorem mem_keys_timersOf :
    key ∈ (definition.timersOf states).map (·.1) ↔
      key.state ∈ states ∧ (definition.delayed? key).isSome = true := by
  rw [List.mem_map]
  constructor
  · rintro ⟨⟨key, delay⟩, member, rfl⟩
    obtain ⟨isThere, delayed, found, _⟩ := mem_timersOf.1 member
    exact ⟨isThere, by simp [found]⟩
  · rintro ⟨isThere, isDelayed⟩
    obtain ⟨delayed, found⟩ := Option.isSome_iff_exists.1 isDelayed
    exact ⟨(key, delayed.delay), mem_timersOf.2 ⟨isThere, delayed, found, rfl⟩, rfl⟩

end Definition

/-- The timer of a transition has triggered a step. -/
def StepResult.Spends (step : StepResult) (key : TimerKey) : Prop :=
  ∃ generation, step.fired = some (key, generation)

/-- The timers without the one that has triggered a step. -/
def Timers.without (timers : Timers) : Option (TimerKey × Nat) → Timers
  | some (key, _) => timers.remove key
  | none => timers

theorem Timers.sorted_without {timers : Timers} (sorted : timers.Sorted)
    (fired : Option (TimerKey × Nat)) : (timers.without fired).Sorted := by
  cases fired with
  | none => exact sorted
  | some pair => exact sorted_filter sorted _

theorem Timers.without_eq (timers : Timers) (fired : Option (TimerKey × Nat)) :
    (timers.without fired).now = timers.now ∧
      (timers.without fired).generations = timers.generations := by
  cases fired <;> exact ⟨rfl, rfl⟩

theorem StepResult.mem_without {step : StepResult} {timers : Timers} {timer : Timer} :
    timer ∈ (timers.without step.fired).armed ↔ timer ∈ timers.armed ∧ ¬ step.Spends timer.key := by
  cases fired : step.fired with
  | none => simp [Timers.without, Spends, fired]
  | some pair =>
      have spends : step.Spends timer.key ↔ pair.1 = timer.key := by
        simp [Spends, fired, Prod.ext_iff]
      rw [spends]
      simp [Timers.without, Timers.remove, ne_comm]

namespace Interpreter

variable {Listener : Type} {definition : Definition} {interpreter : Interpreter Listener}

/-- What a published step makes of the timers: those of the states that it exits are gone and
so is the one that triggered it, and those of the states that it enters are new. -/
structure Retimed (definition : Definition) (step : StepResult) (before after : Timers) : Prop where
  sorted : after.Sorted
  now : after.now = before.now
  grows : before.generations ≤ after.generations
  kept : ∀ timer ∈ before.armed, timer.key.state ∉ step.plan.exited →
    timer.key.state ∉ step.plan.entered → ¬ step.Spends timer.key → timer ∈ after.armed
  covers : ∀ key : TimerKey, key.state ∈ step.plan.entered →
    (definition.delayed? key).isSome = true → ∃ timer ∈ after.armed, timer.key = key
  origin : ∀ timer ∈ after.armed,
    (timer ∈ before.armed ∧ timer.key.state ∉ step.plan.exited ∧ ¬ step.Spends timer.key ∧
      ¬ (timer.key.state ∈ step.plan.entered ∧ (definition.delayed? timer.key).isSome = true)) ∨
      ∃ delayed, timer.key.state ∈ step.plan.entered ∧
        definition.delayed? timer.key = some delayed ∧
        before.now.add? delayed.delay = some timer.deadline ∧ timer.fired = false ∧
        before.generations < timer.generation ∧ timer.generation ≤ after.generations

theorem timersAfter_eq (step : StepResult) :
    interpreter.timersAfter definition step =
      ((interpreter.timers.without step.fired).disarmAll step.plan.exited).armAll
        (definition.timersOf step.plan.entered) := by
  unfold timersAfter
  cases step.fired <;> rfl

/-- A step arms all the timers that it is to arm unless the deadline of one is beyond the
range. -/
theorem timersAfter_incomplete_iff {step : StepResult} :
    (interpreter.timersAfter definition step).2 = false ↔
      ∃ entry ∈ definition.timersOf step.plan.entered, interpreter.now.add? entry.2 = none := by
  rw [timersAfter_eq, Timers.armAll_eq_false_iff, (Timers.disarmAll_eq _).1,
    (Timers.without_eq _ _).1]
  rfl

/-- Only a machine that runs, and is to arm a timer beyond the range, leaves it with a step. -/
theorem beyond_of_overflow {now : Timestamp} {step : StepResult} {halted : Interpreter Listener}
    (overflows : interpreter.commit definition now step = .overflow halted) :
    interpreter.lifecycle = .running ∧
      ∃ entry ∈ definition.timersOf step.plan.entered, interpreter.now.add? entry.2 = none := by
  unfold commit at overflows
  split at overflows
  · cases overflows
  · next isRunning =>
    split at overflows
    · next incomplete =>
      exact ⟨by simpa using isRunning, timersAfter_incomplete_iff.1 (congrArg Prod.snd incomplete)⟩
    · cases overflows

theorem retimed_of_timersAfter {step : StepResult} {after : Timers}
    (sorted : interpreter.timers.Sorted)
    (leads : interpreter.timersAfter definition step = (after, true)) :
    Retimed definition step interpreter.timers after := by
  rw [timersAfter_eq] at leads
  have arming := Timers.arming_armAll
    (Timers.sorted_disarmAll (Timers.sorted_without sorted _) _) leads
  obtain ⟨sameNow, sameGenerations⟩ := Timers.without_eq interpreter.timers step.fired
  obtain ⟨stillNow, stillGenerations⟩ :=
    @Timers.disarmAll_eq (interpreter.timers.without step.fired) step.plan.exited
  refine ⟨arming.sorted, arming.now.trans (stillNow.trans sameNow), ?_, ?_, ?_, ?_⟩
  · rw [← sameGenerations, ← stillGenerations]
    exact arming.grows
  · intro timer isArmed notExited notEntered unspent
    apply arming.kept timer
    · exact Timers.mem_disarmAll.2 ⟨StepResult.mem_without.2 ⟨isArmed, unspent⟩, notExited⟩
    · exact fun named => notEntered (Definition.mem_keys_timersOf.1 named).1
  · intro key isEntered isDelayed
    exact arming.covers key (Definition.mem_keys_timersOf.2 ⟨isEntered, isDelayed⟩)
  · intro timer isArmed
    rcases arming.origin timer isArmed with
      ⟨before, notNamed⟩ | ⟨delay, named, deadline, waits, new, issued⟩
    · obtain ⟨before, notExited⟩ := Timers.mem_disarmAll.1 before
      obtain ⟨before, unspent⟩ := StepResult.mem_without.1 before
      refine .inl ⟨before, notExited, unspent, fun both => ?_⟩
      exact notNamed (Definition.mem_keys_timersOf.2 both)
    · obtain ⟨isEntered, delayed, found, rfl⟩ := Definition.mem_timersOf.1 named
      rw [stillNow, sameNow] at deadline
      rw [stillGenerations, sameGenerations] at new
      exact .inr ⟨delayed, isEntered, found, deadline, waits, new, issued⟩

/-- A machine that resumes arms the timers of all that is active. -/
theorem arming_assemble (configuration : Configuration) (context : Context) (history : History) :
    Timers.Arming (definition.timersOf configuration.toList) {}
      (assemble definition .running configuration context history :
        Interpreter Listener).timers := by
  have arms : ({} : Timers).armAll (definition.timersOf configuration.toList) =
      ((({} : Timers).armAll (definition.timersOf configuration.toList)).1, true) :=
    Prod.ext rfl (Timers.arms_at_zero _ rfl)
  simpa [assemble] using Timers.arming_armAll (Timers.sorted_nil _ _) arms

end Interpreter

end Statechart
