import Statechart.Proofs.Records
import Statechart.Proofs.Settled

/-!
# Reading back the text of a specification

A specification is written in one form: every list as a list, every transition with the
names of its fields, and nothing for what is absent or empty. Read back, that form gives the
same specification, so a text with shorthands and the text that is written for it mean the
same. No key may stand twice in the specification, and none does that was read from a text
or built up piece by piece.
-/

namespace Statechart

open Json

/-! ## Transitions -/

namespace TransitionSpec

def slots (transition : TransitionSpec) : List (String × Option Json) :=
  [("target", transition.target.map .string), ("guard", transition.guard.map .string),
    ("actions", unlessEmpty Json.strings transition.actions)]

theorem toJson_eq (transition : TransitionSpec) :
    transition.toJson = .object (written transition.slots) := by
  simp only [toJson, slots, written, List.flatMap_cons, List.flatMap_nil, written_unlessEmpty,
    Option.map_map, List.append_nil, List.append_assoc, Function.comp_def]

theorem ofJson?_toJson (transition : TransitionSpec) :
    ofJson? transition.toJson = some transition := by
  have names : ["target", "guard", "actions"].Nodup := by decide
  have places : record? ["target", "guard", "actions"] (.object (written transition.slots)) =
      some (transition.slots.map (·.2)) := record?_written names
  rw [toJson_eq, ofJson?, places]
  · simp only [slots, List.map_cons, List.map_nil, optional?_string,
      orDefault?_unlessEmpty (oneOrMany?_strings _)]
    rfl
  · exact nofun

theorem realFree_toJson (transition : TransitionSpec) : transition.toJson.RealFree := by
  rw [toJson_eq]
  refine realFree_written ?_
  simp only [slots, List.forall_mem_cons]
  exact ⟨realFree_text _, realFree_text _, realFree_unlessEmpty (realFree_strings _), nofun⟩

end TransitionSpec

namespace DelayedSpec

def slots (delayed : DelayedSpec) : List (String × Option Json) :=
  [("delay_ms", some (.ofUInt64 delayed.millis)), ("target", some (.string delayed.target)),
    ("actions", unlessEmpty Json.strings delayed.actions)]

theorem toJson_eq (delayed : DelayedSpec) : delayed.toJson = .object (written delayed.slots) := by
  simp only [toJson, slots, written, List.flatMap_cons, List.flatMap_nil, written_unlessEmpty,
    Option.map_some, Option.toList_some, List.append_nil]
  rfl

theorem ofJson?_toJson (delayed : DelayedSpec) : ofJson? delayed.toJson = some delayed := by
  have names : ["delay_ms", "target", "actions"].Nodup := by decide
  have places : record? ["delay_ms", "target", "actions"] (.object (written delayed.slots)) =
      some (delayed.slots.map (·.2)) := record?_written names
  rw [toJson_eq, ofJson?, places]
  simp only [slots, List.map_cons, List.map_nil, unsigned?_ofUInt64, Json.string?,
    orDefault?_unlessEmpty (oneOrMany?_strings _), Option.bind_eq_bind, Option.bind_some,
    Option.pure_def, UInt64.ofNat_toNat]

theorem realFree_toJson (delayed : DelayedSpec) : delayed.toJson.RealFree := by
  rw [toJson_eq]
  refine realFree_written ?_
  simp only [slots, List.forall_mem_cons]
  exact ⟨fun _ member => Option.some.inj member ▸ trivial,
    fun _ member => Option.some.inj member ▸ trivial,
    realFree_unlessEmpty (realFree_strings _), nofun⟩

end DelayedSpec

/-! ## States -/

namespace StateSpec

theorem optional?_kind (kind : Option StateKind) :
    optional? kindOfJson? (kind.map fun kind => .string kind.name) = some kind := by
  rcases kind with _ | ⟨_ | _ | _ | _⟩ <;> rfl

theorem candidatesOfJson?_toJson {on : List (String × List TransitionSpec)}
    (distinct : (on.map (·.1)).Nodup) : candidatesOfJson? (candidatesToJson on) = some on := by
  have candidates (list : List TransitionSpec) : Json.oneOrMany? TransitionSpec.ofJson?
      (.array (list.map TransitionSpec.toJson)) = some list :=
    oneOrMany?_map fun transition _ => transition.ofJson?_toJson
  have reads : (on.map fun entry =>
        (entry.1, Json.array (entry.2.map TransitionSpec.toJson))).mapM (fun field =>
          (Json.oneOrMany? TransitionSpec.ofJson? field.2).map fun list => (field.1, list)) =
      some on := mapM_map fun entry _ => by rw [candidates, Option.map_some]
  rw [candidatesToJson, candidatesOfJson?, reads, Option.map_some, Keyed.settle_of_nodup distinct]

/-- The slots of a state apart from its id. -/
def plainSlots (state : StateSpec) : List (String × Option Json) :=
  [("type", state.kind.map fun kind => .string kind.name), ("initial", state.initial.map .string),
    ("entry", unlessEmpty Json.strings state.entry), ("exit", unlessEmpty Json.strings state.exit),
    ("on", unlessEmpty candidatesToJson state.on),
    ("after", unlessEmpty (fun after => .array (after.map DelayedSpec.toJson)) state.after),
    ("states", unlessEmpty (fun states => .object (statesToJson states)) state.states)]

def slots (state : StateSpec) : List (String × Option Json) :=
  ("id", state.id.map .string) :: state.plainSlots

theorem fieldsToJson_eq (state : StateSpec) : state.fieldsToJson = written state.slots := by
  obtain ⟨id, kind, initial, entry, exit, on, after, states⟩ := state
  simp only [fieldsToJson, slots, plainSlots, written, List.flatMap_cons, List.flatMap_nil,
    written_unlessEmpty, Option.map_map, List.append_nil, List.append_assoc, Function.comp_def]

theorem plainFields?_slots {state : StateSpec} (distinct : (state.on.map (·.1)).Nodup) :
    plainFields? (state.kind.map fun kind => .string kind.name) (state.initial.map .string)
        (unlessEmpty Json.strings state.entry) (unlessEmpty Json.strings state.exit)
        (unlessEmpty candidatesToJson state.on)
        (unlessEmpty (fun after => .array (after.map DelayedSpec.toJson)) state.after) =
      some { state with id := none, states := [] } := by
  have delays : Json.list? DelayedSpec.ofJson? (.array (state.after.map DelayedSpec.toJson)) =
      some state.after := list?_map fun delayed _ => delayed.ofJson?_toJson
  rw [plainFields?, optional?_kind, optional?_string,
    orDefault?_unlessEmpty (oneOrMany?_strings _), orDefault?_unlessEmpty (oneOrMany?_strings _),
    orDefault?_unlessEmpty (candidatesOfJson?_toJson distinct), orDefault?_unlessEmpty delays]
  rfl

/-- A state is read from its record, field by field. -/
theorem ofJson?_of_record? {json : Json} {id kind initial entry exit on after states : Option Json}
    (found : Json.record? fieldNames json =
      some [id, kind, initial, entry, exit, on, after, states]) :
    ofJson? json = do
      let id ← Json.optional? Json.string? id
      let state ← plainFields? kind initial entry exit on after
      let states ← MachineSpec.statesOfJson? states
      return { state with id, states } := by
  rw [ofJson?]
  split
  · next isRead =>
    cases found.symm.trans isRead
    rcases states with _ | _ | _ | _ | _ | _ | _ <;> rfl
  · next none => exact absurd found (none _ _ _ _ _ _ _ _)

theorem statesOfJson?_slot {states : List (String × StateSpec)}
    (distinct : (states.map (·.1)).Nodup)
    (reads : childrenOfJson? (statesToJson states) = some states) :
    MachineSpec.statesOfJson? (unlessEmpty (fun states => .object (statesToJson states)) states) =
      some states := by
  cases states with
  | nil => rfl
  | cons first rest =>
      have settled : (childrenOfJson? (statesToJson (first :: rest))).map Keyed.settle =
          some (first :: rest) := by
        rw [reads, Option.map_some, Keyed.settle_of_nodup distinct]
      exact settled

/-- A state is read back once its children are. -/
theorem ofJson?_of_children {state : StateSpec} (events : (state.on.map (·.1)).Nodup)
    (keys : (state.states.map (·.1)).Nodup)
    (children : childrenOfJson? (statesToJson state.states) = some state.states) :
    ofJson? (.object state.fieldsToJson) = some state := by
  have names : fieldNames.Nodup := by decide
  have places : record? fieldNames (.object (written state.slots)) =
    some (state.slots.map (·.2)) := record?_written names
  rw [fieldsToJson_eq, ofJson?_of_record? places, optional?_string, plainFields?_slots events,
    statesOfJson?_slot keys children]
  cases state
  rfl

mutual
theorem ofJson?_fieldsToJson : (state : StateSpec) → state.Settled →
    ofJson? (.object state.fieldsToJson) = some state
  | ⟨_, _, _, _, _, _, _, states⟩, ⟨events, keys, each⟩ =>
      ofJson?_of_children events keys (childrenOfJson?_statesToJson states each)

theorem childrenOfJson?_statesToJson : (states : List (String × StateSpec)) →
    EachSettled states → childrenOfJson? (statesToJson states) = some states
  | [], _ => by rw [statesToJson, childrenOfJson?]
  | child :: rest, ⟨settled, others⟩ => by
      rw [statesToJson, childrenOfJson?, ofJson?_fieldsToJson child.2 settled,
        childrenOfJson?_statesToJson rest others]
      rfl
end

theorem realFree_candidatesToJson (on : List (String × List TransitionSpec)) :
    (candidatesToJson on).RealFree := by
  refine fieldsRealFree_iff.2 fun field member => ?_
  obtain ⟨entry, _, rfl⟩ := List.mem_map.1 member
  exact realFree_map fun transition _ => transition.realFree_toJson

theorem realFree_plainSlots_of_children {state : StateSpec}
    (children : FieldsRealFree (statesToJson state.states)) :
    ∀ slot ∈ state.plainSlots, ∀ value ∈ slot.2, value.RealFree := by
  have kinds : ∀ value ∈ state.kind.map fun kind => Json.string kind.name, value.RealFree := by
    intro value member
    obtain ⟨kind, _, rfl⟩ := Option.map_eq_some_iff.1 member
    trivial
  simp only [plainSlots, List.forall_mem_cons]
  exact ⟨kinds, realFree_text _, realFree_unlessEmpty (realFree_strings _),
    realFree_unlessEmpty (realFree_strings _), realFree_unlessEmpty (realFree_candidatesToJson _),
    realFree_unlessEmpty (realFree_map fun delayed _ => delayed.realFree_toJson),
    realFree_unlessEmpty children, nofun⟩

mutual
theorem realFree_fieldsToJson : (state : StateSpec) → FieldsRealFree state.fieldsToJson
  | ⟨_, _, _, _, _, _, _, states⟩ => by
      rw [fieldsToJson_eq]
      exact realFree_written (List.forall_mem_cons.2 ⟨realFree_text _,
        realFree_plainSlots_of_children (realFree_statesToJson states)⟩)

theorem realFree_statesToJson : (states : List (String × StateSpec)) →
    FieldsRealFree (statesToJson states)
  | [] => trivial
  | child :: rest => ⟨realFree_fieldsToJson child.2, realFree_statesToJson rest⟩
end

theorem realFree_plainSlots (state : StateSpec) :
    ∀ slot ∈ state.plainSlots, ∀ value ∈ slot.2, value.RealFree :=
  realFree_plainSlots_of_children (realFree_statesToJson state.states)

end StateSpec

/-! ## Machines -/

namespace MachineSpec

def contextSlot (context : Context) : Option Json :=
  if context.isEmpty then none else some context.toJson

theorem orDefault?_contextSlot (context : Context) :
    Json.orDefault? .empty Context.ofJson? (contextSlot context) = some context := by
  unfold contextSlot
  split
  · next isEmpty =>
    have same : context = .empty := Context.ext_entries (List.isEmpty_iff.1 isEmpty)
    rw [same]
    rfl
  · exact context.ofJson?_toJson

def slots (machine : MachineSpec) : List (String × Option Json) :=
  ("id", some (.string machine.id)) :: ("context", contextSlot machine.context) ::
    machine.root.plainSlots

theorem toJson_eq {machine : MachineSpec} (noId : machine.root.id = none) :
    machine.toJson = .object (written machine.slots) := by
  have context : ((contextSlot machine.context).map fun value => ("context", value)).toList =
      if machine.context.isEmpty then [] else [("context", machine.context.toJson)] := by
    unfold contextSlot
    split <;> rfl
  have root : machine.root.fieldsToJson = written machine.root.plainSlots := by
    rw [StateSpec.fieldsToJson_eq, StateSpec.slots, noId]
    rfl
  rw [toJson, root, ← context, List.append_assoc]
  rfl

theorem ofJson?_toJson {machine : MachineSpec} (settled : machine.root.Settled)
    (noId : machine.root.id = none) : ofJson? machine.toJson = some machine := by
  obtain ⟨events, keys, each⟩ := StateSpec.settled_iff.1 settled
  have children := StateSpec.statesOfJson?_slot keys
    (StateSpec.childrenOfJson?_statesToJson _ (StateSpec.eachSettled_iff.2 each))
  have names : ("id" :: "context" :: StateSpec.fieldNames.tail).Nodup := by decide
  have distinct : (machine.slots.map (·.1)).Nodup := names
  -- the context is asked for before the id, but written after it
  have places : byName? (written machine.slots) ("context" :: StateSpec.fieldNames) =
      some (contextSlot machine.context :: some (.string machine.id) ::
        machine.root.plainSlots.map (·.2)) :=
    byName?_written distinct (("context", contextSlot machine.context) ::
      ("id", some (.string machine.id)) :: machine.root.plainSlots) (List.Perm.swap ..).subset
  rw [toJson_eq noId, ofJson?, places]
  simp only [StateSpec.plainSlots, List.map_cons, List.map_nil, Json.string?,
    orDefault?_contextSlot, StateSpec.plainFields?_slots events, children, Option.bind_eq_bind,
    Option.bind_some, Option.pure_def]
  obtain ⟨id, context, ⟨rootId, _, _, _, _, _, _, _⟩⟩ := machine
  obtain rfl : rootId = none := noId
  rfl

theorem realFree_toJson {machine : MachineSpec} (noId : machine.root.id = none)
    (free : machine.context.toJson.RealFree) : machine.toJson.RealFree := by
  have context : ∀ value ∈ contextSlot machine.context, value.RealFree := by
    unfold contextSlot
    split
    · exact nofun
    · exact fun _ member => Option.some.inj member ▸ free
  rw [toJson_eq noId]
  exact realFree_written (List.forall_mem_cons.2
    ⟨fun _ member => Option.some.inj member ▸ trivial,
      List.forall_mem_cons.2 ⟨context, machine.root.realFree_plainSlots⟩⟩)

/-- A machine that was read from a text or built up piece by piece is read back from its own
text, its states, events, candidates, actions and delays in the same order. -/
theorem ofText?_text {machine : MachineSpec} (obtained : machine.Obtained)
    (free : machine.context.toJson.RealFree) (shallow : machine.toJson.depth ≤ 127) :
    ofText? machine.text = some machine := by
  obtain ⟨settled, noId⟩ := obtained.settled
  have value : Json.ofText? machine.text = some machine.toJson :=
    Json.ofText?_compact (realFree_toJson noId free) shallow
  calc ofText? machine.text
      = (Json.ofText? machine.text).bind ofJson? := rfl
    _ = ofJson? machine.toJson := by rw [value, Option.bind_some]
    _ = some machine := ofJson?_toJson settled noId

/-- A gate that opens for a guest at most three times, and shuts by itself. -/
def gate : MachineSpec :=
  (named "gate").withContext (Context.empty.set "left" (.ofInt64 3)) |>.startingIn "shut"
    |>.candidate "reset" ((TransitionSpec.leadingTo "shut").action "refill")
    |>.child "shut" ((StateSpec.atomic.onExit "count").candidate "open"
        ((TransitionSpec.leadingTo "open").guardedBy "anyLeft")
        |>.candidate "open" (TransitionSpec.internal.action "refuse"))
    |>.child "open" ((StateSpec.compound "lit").delayed (.after (.ofMillis 500) "shut")
        |>.child "lit" (StateSpec.final.withId "lamp"))

theorem gate_obtained : gate.Obtained := by
  have shut : (StateSpec.atomic.onExit "count").Obtained := (StateSpec.Obtained.ofKind _).onExit _
  have isOpen : ((StateSpec.compound "lit").delayed (.after (.ofMillis 500) "shut")).Obtained :=
    (StateSpec.Obtained.compound _).delayed _
  exact ((((((Obtained.named "gate").withContext _).startingIn _).candidate _ _).child _
    ((shut.candidate _ _).candidate _ _)).child _
      (isOpen.child _ ((StateSpec.Obtained.ofKind _).withId _)))

theorem gate_reads_back :
    gate.Obtained ∧ gate.context.toJson.RealFree ∧ gate.toJson.depth ≤ 127 ∧
      ofText? gate.text = some gate := by
  have free : gate.context.toJson.RealFree := ⟨trivial, trivial⟩
  have shallow : gate.toJson.depth ≤ 127 := by decide +kernel
  exact ⟨gate_obtained, free, shallow, ofText?_text gate_obtained free shallow⟩

example :
    (ofJson? (.object [("id", .string "m"), ("entry", .string "greet"),
        ("on", .object [("go", .array [.string "a", Json.strings ["b", "known"]])])])).map
      (fun machine => (machine.root.entry, machine.root.on)) =
    some (["greet"],
      [("go", [.leadingTo "a", (TransitionSpec.leadingTo "b").guardedBy "known"])]) := by
  cbv

end MachineSpec

end Statechart
