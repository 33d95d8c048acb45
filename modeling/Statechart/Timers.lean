import Statechart.Definition

/-!
# Timers on a logical clock

The clock moves only when it is advanced. A timer belongs to one delayed transition
of an active state; every arming has a generation of its own, so that a timer that
fired for an earlier visit of a state is told apart from the present one.
-/

namespace Statechart

/-- A delayed transition: the state that declares it, and its place there. -/
structure TimerKey where
  state : Nat
  index : Nat
  deriving DecidableEq

/-- Document order of the states, then the order of declaration. -/
def TimerKey.before (a b : TimerKey) : Bool :=
  a.state < b.state || (a.state == b.state && a.index < b.index)

structure Timer where
  key : TimerKey
  deadline : Duration
  generation : Nat
  /-- The timer has been handed out and awaits its step. -/
  fired : Bool
  deriving DecidableEq

/-- The earlier deadline comes first, and of equal ones the earlier key. -/
def Timer.dueBefore (a b : Timer) : Bool :=
  a.deadline < b.deadline || (a.deadline == b.deadline && a.key.before b.key)

structure Timers where
  now : Duration := .zero
  armed : List Timer := []
  generations : Nat := 0
  deriving DecidableEq

namespace Timers

instance : Inhabited Timers := ⟨{}⟩

/-- Puts a timer at its place, instead of one with the same key. -/
def place (timer : Timer) : List Timer → List Timer
  | [] => [timer]
  | head :: rest =>
    if timer.key.before head.key then timer :: head :: rest
    else if timer.key = head.key then timer :: rest
    else head :: place timer rest

/-- Arms a timer; nothing when its deadline is beyond the range of the clock. -/
def arm? (timers : Timers) (key : TimerKey) (delay : Duration) : Option Timers := do
  let deadline ← timers.now.add? delay
  let generation := timers.generations + 1
  return { timers with
    armed := place { key, deadline, generation, fired := false } timers.armed
    generations := generation }

/-- Arms a list of timers in order, and stops before one that cannot be armed; returns
whether all were armed. -/
def armAll (timers : Timers) : List (TimerKey × Duration) → Timers × Bool
  | [] => (timers, true)
  | (key, delay) :: rest =>
    match timers.arm? key delay with
    | some timers => timers.armAll rest
    | none => (timers, false)

def remove (timers : Timers) (key : TimerKey) : Timers :=
  { timers with armed := timers.armed.filter (·.key ≠ key) }

def disarm (timers : Timers) (state : Nat) : Timers :=
  { timers with armed := timers.armed.filter (·.key.state ≠ state) }

def disarmAll (timers : Timers) (states : List Nat) : Timers := states.foldl disarm timers

def clear (timers : Timers) : Timers := { timers with armed := [] }

/-- Whether a timer that fired belongs to the present visit of its state. -/
def isCurrent (timers : Timers) (key : TimerKey) (generation : Nat) : Bool :=
  timers.armed.any fun timer => timer.key = key && timer.generation == generation

def mark (timers : Timers) (key : TimerKey) (generation : Nat) (fired : Bool) : Timers :=
  { timers with
    armed := timers.armed.map fun timer =>
      if timer.key = key ∧ timer.generation = generation then { timer with fired } else timer }

def rearm (timers : Timers) (key : TimerKey) (generation : Nat) : Timers :=
  timers.mark key generation false

/-- The first of a list of timers to fall due. -/
def first? : List Timer → Option Timer
  | [] => none
  | timer :: rest =>
    match first? rest with
    | some other => if other.dueBefore timer then some other else some timer
    | none => some timer

/-- The timer that falls due first, no later than a limit. -/
def due? (timers : Timers) (limit : Duration) : Option Timer :=
  first? (timers.armed.filter fun timer => !timer.fired && timer.deadline ≤ limit)

/-- Hands out the timer that falls due first, and moves the clock to its deadline. -/
def pop? (timers : Timers) (limit : Duration) : Option (Timer × Timers) := do
  let timer ← timers.due? limit
  return (timer, { timers.mark timer.key timer.generation true with
    now := timers.now.latest timer.deadline })

def settle (timers : Timers) (limit : Duration) : Timers :=
  { timers with now := timers.now.latest limit }

def nextDeadline? (timers : Timers) : Option Duration :=
  (first? (timers.armed.filter fun timer => !timer.fired)).map fun timer =>
    timer.deadline.monus timers.now

end Timers

namespace Definition

def delayed? (definition : Definition) (key : TimerKey) : Option DelayedTransition :=
  (definition.behaviour key.state).after[key.index]?

def timersOf (definition : Definition) (states : List Nat) : List (TimerKey × Duration) :=
  states.flatMap fun state =>
    (definition.behaviour state).after.mapIdx fun index delayed => (⟨state, index⟩, delayed.delay)

end Definition

end Statechart
