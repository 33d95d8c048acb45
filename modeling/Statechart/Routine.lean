import Statechart.Definition.Error
import Statechart.Interpreter
import Statechart.Step.Selection

/-!
# Routines

The code that a host binds to a machine: actions, listeners, and whatever drives the
machine from outside. A routine computes, reads and writes a memory that all routines
share, and makes requests of the interpreter it runs under. It is given as a tree: each
request comes with the routine that continues with the answer.
-/

namespace Statechart

inductive Request (Listener : Type)
  | start
  | send (event : String)
  | stop
  | advance (span : Duration)
  | subscribe (listener : Listener)
  | unsubscribe (number : Nat)
  /-- Whether an event would take a transition now. -/
  | can (event : String)
  | look

/-- What a request is answered with. -/
abbrev Request.Answer {Listener : Type} : Request Listener → Type
  | .start => Except InterpreterError Unit
  | .send _ => Except InterpreterError Delivery
  | .stop => Unit
  | .advance _ => Except InterpreterError Nat
  | .subscribe _ => Nat
  | .unsubscribe _ => Bool
  | .can _ => Bool
  | .look => Interpreter Listener

/-- Code with a shared memory `σ` that ends in a result. -/
inductive Routine (σ Listener : Type) (α : Type)
  | done (result : α)
  | read (next : σ → Routine σ Listener α)
  | write (memory : σ) (next : Routine σ Listener α)
  | ask (request : Request Listener) (next : request.Answer → Routine σ Listener α)

namespace Routine

variable {σ Listener α β : Type}

def bind : Routine σ Listener α → (α → Routine σ Listener β) → Routine σ Listener β
  | .done result, f => f result
  | .read next, f => .read fun memory => (next memory).bind f
  | .write memory next, f => .write memory (next.bind f)
  | .ask request next, f => .ask request fun answer => (next answer).bind f

instance : Monad (Routine σ Listener) where
  pure := .done
  bind := bind

instance [Inhabited α] : Inhabited (Routine σ Listener α) := ⟨.done default⟩

def request (r : Request Listener) : Routine σ Listener r.Answer := .ask r .done

def modify (f : σ → σ) : Routine σ Listener Unit :=
  .read fun memory => .write (f memory) (.done ())

def memory : Routine σ Listener σ := .read .done

end Routine

/-- What an action is told: a working copy of the context, the event being processed,
and the id of the state that declares the action. -/
structure ActionCall where
  context : Context
  event : String
  state : String

/-- What an action leaves: its context, and the events it raises. -/
structure ActionEffect where
  context : Context
  raised : List String := []

/-- An action succeeds with its effect or fails for a reason. -/
abbrev Action (σ Listener : Type) :=
  ActionCall → Routine σ Listener (Except String ActionEffect)

structure Registry (σ Listener : Type) where
  actions : List (String × Action σ Listener) := []
  guards : List (String × Guard) := []

namespace Registry

variable {σ Listener : Type} (registry : Registry σ Listener)

def action? (name : String) : Option (Action σ Listener) := registry.actions.lookup name

def guard? (name : String) : Option Guard := registry.guards.lookup name

def hasAction (name : String) : Bool := (registry.action? name).isSome

def hasGuard (name : String) : Bool := (registry.guard? name).isSome

def withAction (name : String) (action : Action σ Listener) : Registry σ Listener :=
  { registry with actions := Keyed.insert name action registry.actions }

def withGuard (name : String) (guard : Guard) : Registry σ Listener :=
  { registry with guards := Keyed.insert name guard registry.guards }

/-- The names a definition uses that nobody provides. -/
def unknownNames (definition : Definition) : List DefinitionError :=
  (definition.actionReferences.filter fun pair => !registry.hasAction pair.1).map
    (fun pair => .unknownAction pair.2 pair.1) ++
  (definition.guardReferences.filter fun pair => !registry.hasGuard pair.1).map
    (fun pair => .unknownGuard pair.2 pair.1)

def validate (definition : Definition) : Except DefinitionError Unit :=
  DefinitionError.collect (registry.unknownNames definition)

end Registry

end Statechart
