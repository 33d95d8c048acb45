import Statechart.Spec

/-!
# What can be wrong with a definition

All problems of a specification, or of the actions and guards bound to it, are
reported together.
-/

namespace Statechart

inductive DefinitionError
  | emptyId
  | invalidKey (parent key : String)
  | duplicateId (id : String)
  | missingInitial (state : String)
  | unknownInitial (state initial : String)
  | unexpectedInitial (state kind : String)
  | childrenOnLeaf (state kind : String)
  | emptyComposite (state kind : String)
  | unresolvedTarget (state event target : String)
  | zeroDelay (state : String)
  | unknownAction (state action : String)
  | unknownGuard (state guard : String)
  | multiple (errors : List DefinitionError)

namespace DefinitionError

instance : Inhabited DefinitionError := ⟨.emptyId⟩

mutual
def message : DefinitionError → String
  | .emptyId => "Machine id must not be empty"
  | .invalidKey parent key =>
    s!"State key '{key}' under '{parent}' is invalid: keys must be non-empty and " ++
      "contain no '.' or '#'"
  | .duplicateId id => s!"State id '{id}' is declared more than once"
  | .missingInitial state =>
    s!"Compound state '{state}' does not declare an initial child"
  | .unknownInitial state initial =>
    s!"Initial child '{initial}' of state '{state}' does not exist"
  | .unexpectedInitial state kind =>
    s!"State '{state}' is {kind} and cannot declare an initial child"
  | .childrenOnLeaf state kind => s!"State '{state}' is {kind} and cannot have children"
  | .emptyComposite state kind => s!"State '{state}' is {kind} and needs at least one child"
  | .unresolvedTarget state event target =>
    s!"Transition on '{event}' from '{state}' targets '{target}', which does not resolve"
  | .zeroDelay state => s!"Delayed transition from '{state}' must have a non-zero delay"
  | .unknownAction state action => s!"State '{state}' references unknown action '{action}'"
  | .unknownGuard state guard => s!"State '{state}' references unknown guard '{guard}'"
  | .multiple errors =>
    toString errors.length ++ " definition errors: " ++ "; ".intercalate (messages errors)

def messages : List DefinitionError → List String
  | [] => []
  | error :: rest => error.message :: messages rest
end

/-- One result for a list of problems: several are grouped. -/
def collect : List DefinitionError → Except DefinitionError Unit
  | [] => .ok ()
  | [error] => .error error
  | errors => .error (.multiple errors)

/-- The single problems; a group is opened once. -/
def issues : DefinitionError → List DefinitionError
  | .multiple errors => errors
  | error => [error]

end DefinitionError

end Statechart
