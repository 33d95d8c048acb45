import Statechart.Routine
import Statechart.Text.Quoted

/-!
# Descriptions

One line about an interpreter or a registry, for people.
-/

namespace Statechart

def Status.title : Status → String
  | .active => "Active"
  | .stopped => "Stopped"
  | .done => "Done"

def Interpreter.describe {Listener : Type} (interpreter : Interpreter Listener)
    (definition : Definition) : String :=
  "Interpreter \x7b machine: " ++ Text.quote definition.machineId ++ ", status: " ++
    interpreter.status.title ++ ", .. \x7d"

def Registry.describe {σ Listener : Type} (registry : Registry σ Listener) : String :=
  "ActionRegistry \x7b actions: " ++ Text.quoteAll (registry.actions.map (·.1)) ++
    ", guards: " ++ Text.quoteAll (registry.guards.map (·.1)) ++ " \x7d"

end Statechart
