import Statechart.Json.Printer
import Statechart.Json.Record
import Statechart.Spec

/-!
# Specifications as JSON

Written, a specification leaves out what is absent or empty. Read, it also has
shorthands: a bare target for a transition, one item for a list of one, fields by
position. The fields of the root state stand beside the id and the context of the
machine.
-/

namespace Statechart

namespace TransitionSpec

def toJson (transition : TransitionSpec) : Json :=
  .object <|
    (transition.target.map fun target => ("target", Json.string target)).toList ++
    (transition.guard.map fun guard => ("guard", Json.string guard)).toList ++
    (if transition.actions.isEmpty then [] else [("actions", Json.strings transition.actions)])

/-- A bare target, or the fields of a transition. -/
def ofJson? : Json → Option TransitionSpec
  | .string target => some (.leadingTo target)
  | json =>
    match Json.record? ["target", "guard", "actions"] json with
    | some [target, guard, actions] => do
      let target ← Json.optional? Json.string? target
      let guard ← Json.optional? Json.string? guard
      let actions ← Json.orDefault? [] (Json.oneOrMany? Json.string?) actions
      return { target, guard, actions }
    | _ => none

end TransitionSpec

namespace DelayedSpec

def toJson (delayed : DelayedSpec) : Json :=
  .object <|
    [("delay_ms", Json.ofUInt64 delayed.millis), ("target", Json.string delayed.target)] ++
    (if delayed.actions.isEmpty then [] else [("actions", Json.strings delayed.actions)])

def ofJson? (json : Json) : Option DelayedSpec :=
  match Json.record? ["delay_ms", "target", "actions"] json with
  | some [some millis, some target, actions] => do
    let millis ← Json.unsigned? 64 millis
    let target ← Json.string? target
    let actions ← Json.orDefault? [] (Json.oneOrMany? Json.string?) actions
    return { millis := .ofNat millis, target, actions }
  | _ => none

end DelayedSpec

namespace StateSpec

/-- The candidates of every event; a repeated event keeps its first place. -/
def candidatesOfJson? : Json → Option (List (String × List TransitionSpec))
  | .object fields =>
    (fields.mapM fun field =>
      (Json.oneOrMany? TransitionSpec.ofJson? field.2).map fun list => (field.1, list)).map
      Keyed.settle
  | _ => none

def candidatesToJson (on : List (String × List TransitionSpec)) : Json :=
  .object <| on.map fun entry => (entry.1, .array (entry.2.map TransitionSpec.toJson))

mutual
/-- The fields of a state that are neither absent nor empty. -/
def fieldsToJson : StateSpec → List (String × Json)
  | ⟨id, kind, initial, entry, exit, on, after, states⟩ =>
    (id.map fun id => ("id", Json.string id)).toList ++
    (kind.map fun kind => ("type", Json.string kind.name)).toList ++
    (initial.map fun key => ("initial", Json.string key)).toList ++
    (if entry.isEmpty then [] else [("entry", Json.strings entry)]) ++
    (if exit.isEmpty then [] else [("exit", Json.strings exit)]) ++
    (if on.isEmpty then [] else [("on", candidatesToJson on)]) ++
    (if after.isEmpty then [] else [("after", .array (after.map DelayedSpec.toJson))]) ++
    (if states.isEmpty then [] else [("states", .object (statesToJson states))])

def statesToJson : List (String × StateSpec) → List (String × Json)
  | [] => []
  | state :: rest => (state.1, .object (fieldsToJson state.2)) :: statesToJson rest
end

def kindOfJson? (json : Json) : Option StateKind := json.variant?.bind StateKind.ofName?

/-- The fields of a state apart from its id and its children. -/
def plainFields? (kind initial entry exit on after : Option Json) : Option StateSpec := do
  let kind ← Json.optional? kindOfJson? kind
  let initial ← Json.optional? Json.string? initial
  let entry ← Json.orDefault? [] (Json.oneOrMany? Json.string?) entry
  let exit ← Json.orDefault? [] (Json.oneOrMany? Json.string?) exit
  let on ← Json.orDefault? [] candidatesOfJson? on
  let after ← Json.orDefault? [] (Json.list? DelayedSpec.ofJson?) after
  return { kind, initial, entry, exit, on, after }

def fieldNames : List String :=
  ["id", "type", "initial", "entry", "exit", "on", "after", "states"]

set_option linter.unusedVariables false in
mutual
def ofJson? (json : Json) : Option StateSpec :=
  match found : Json.record? fieldNames json with
  | some [id, kind, initial, entry, exit, on, after, states] => do
    let id ← Json.optional? Json.string? id
    let state ← plainFields? kind initial entry exit on after
    let states ←
      match same : states with
      | none => some []
      | some (.object fields) => (childrenOfJson? fields).map Keyed.settle
      | _ => none
    return { state with id, states }
  | _ => none
termination_by sizeOf json
decreasing_by
  subst same
  have smaller := @Json.sizeOf_lt_of_record? _ _ (.object fields) _ found (by simp)
  simp only [Json.object.sizeOf_spec] at smaller
  omega

/-- The children under their keys, repeated keys included. -/
def childrenOfJson? (fields : List (String × Json)) : Option (List (String × StateSpec)) :=
  match fields with
  | [] => some []
  | (key, value) :: rest => do
    let child ← ofJson? value
    let children ← childrenOfJson? rest
    return (key, child) :: children
termination_by sizeOf fields
end

end StateSpec

namespace MachineSpec

def toJson (machine : MachineSpec) : Json :=
  .object <|
    [("id", Json.string machine.id)] ++
    (if machine.context.isEmpty then [] else [("context", machine.context.toJson)]) ++
    machine.root.fieldsToJson

def text (machine : MachineSpec) : String := machine.toJson.compact

def statesOfJson? : Option Json → Option (List (String × StateSpec))
  | none => some []
  | some (.object fields) => (StateSpec.childrenOfJson? fields).map Keyed.settle
  | some _ => none

def ofJson? : Json → Option MachineSpec
  | .object fields =>
    match Json.byName? fields ("context" :: StateSpec.fieldNames) with
    | some [context, some id, kind, initial, entry, exit, on, after, states] => do
      let id ← Json.string? id
      let context ← Json.orDefault? .empty Context.ofJson? context
      let state ← StateSpec.plainFields? kind initial entry exit on after
      let states ← statesOfJson? states
      return { id, context, root := { state with states } }
    | _ => none
  | _ => none

def ofText? (text : String) : Option MachineSpec := (Json.ofText? text).bind ofJson?

end MachineSpec

end Statechart
