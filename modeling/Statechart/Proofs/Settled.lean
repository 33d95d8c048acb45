import Statechart.Proofs.Siblings
import Statechart.Spec.Codec

/-!
# Settled specifications

No event and no child stands twice under a state: what is added under a key replaces what was
there, and so does a field of a text that repeats a key. This holds of every specification
that is read from a text or built up piece by piece.
-/

namespace Statechart

namespace Keyed

variable {α : Type} {key : String} {value : α} {entries : List (String × α)}

theorem keys_put :
    (put key value entries).map (·.1) =
      if key ∈ entries.map (·.1) then entries.map (·.1) else entries.map (·.1) ++ [key] := by
  induction entries with
  | nil => simp [put]
  | cons head rest ih =>
      simp only [put]
      by_cases same : head.1 = key
      · simp [same]
      · rw [if_neg same, List.map_cons, ih]
        have different : key ≠ head.1 := fun equal => same equal.symm
        by_cases later : key ∈ rest.map (·.1)
        · simp only [List.map_cons, List.mem_cons, later, or_true, if_true]
        · simp only [List.map_cons, List.mem_cons, later, different, or_self, if_false,
            List.cons_append]

theorem mem_put {entry : String × α} (member : entry ∈ put key value entries) :
    entry.2 = value ∨ entry ∈ entries := by
  induction entries with
  | nil =>
      obtain rfl := List.mem_singleton.1 member
      exact .inl rfl
  | cons head rest ih =>
      simp only [put] at member
      split at member
      · rcases List.mem_cons.1 member with rfl | later
        · exact .inl rfl
        · exact .inr (.tail _ later)
      · rcases List.mem_cons.1 member with rfl | later
        · exact .inr (.head _)
        · exact (ih later).imp_right (.tail _)

theorem nodup_keys_put (distinct : (entries.map (·.1)).Nodup) :
    ((put key value entries).map (·.1)).Nodup := by
  rw [keys_put]
  split
  · exact distinct
  · next absent =>
    refine List.nodup_append.2 ⟨distinct, by simp, fun k member other last => ?_⟩
    obtain rfl := List.mem_singleton.1 last
    exact fun same => absent (same ▸ member)

/-- Settled, a list holds each key once and only values that it held before. -/
theorem settle_spec (entries : List (String × α)) :
    ((settle entries).map (·.1)).Nodup ∧
      ∀ entry ∈ settle entries, ∃ before ∈ entries, before.2 = entry.2 := by
  refine List.foldlRecOn entries (fun settled entry => put entry.1 entry.2 settled) (b := [])
    (motive := fun settled : List (String × α) => (settled.map (·.1)).Nodup ∧
      ∀ entry ∈ settled, ∃ before ∈ entries, before.2 = entry.2)
    ⟨List.nodup_nil, fun _ member => by cases member⟩ ?_
  rintro settled ⟨distinct, fromBefore⟩ head member
  refine ⟨nodup_keys_put distinct, fun entry isThere => ?_⟩
  rcases mem_put isThere with same | earlier
  · exact ⟨head, member, same.symm⟩
  · exact fromBefore entry earlier

end Keyed

namespace StateSpec

mutual
/-- At every level the events have distinct names and the children distinct keys. -/
def Settled : StateSpec → Prop
  | ⟨_, _, _, _, _, on, _, states⟩ =>
    (on.map (·.1)).Nodup ∧ (states.map (·.1)).Nodup ∧ EachSettled states

def EachSettled : List (String × StateSpec) → Prop
  | [] => True
  | child :: rest => child.2.Settled ∧ EachSettled rest
end

theorem eachSettled_iff {states : List (String × StateSpec)} :
    EachSettled states ↔ ∀ child ∈ states, child.2.Settled := by
  induction states with
  | nil => simp [EachSettled]
  | cons child rest ih => simp [EachSettled, ih]

theorem settled_iff {spec : StateSpec} :
    spec.Settled ↔ (spec.on.map (·.1)).Nodup ∧ (spec.states.map (·.1)).Nodup ∧
      ∀ child ∈ spec.states, child.2.Settled := by
  cases spec
  rw [Settled, eachSettled_iff]

mutual
theorem Settled.distinct : {spec : StateSpec} → spec.Settled → spec.Distinct
  | ⟨_, _, _, _, _, _, _, _⟩, ⟨_, keys, each⟩ => ⟨keys, each.distinct⟩

theorem EachSettled.distinct :
    {states : List (String × StateSpec)} → EachSettled states → EachDistinct states
  | [], _ => trivial
  | _ :: _, ⟨first, others⟩ => ⟨first.distinct, others.distinct⟩
end

/-- Whatever events a text repeats, the candidates that are read stand under distinct names. -/
theorem nodup_candidatesOfJson? {json : Json} {on : List (String × List TransitionSpec)}
    (read : candidatesOfJson? json = some on) : (on.map (·.1)).Nodup := by
  unfold candidatesOfJson? at read
  split at read
  · obtain ⟨before, _, rfl⟩ := Option.map_eq_some_iff.1 read
    exact (Keyed.settle_spec before).1
  · cases read

theorem nodup_on_plainFields? {kind initial entry exit on after : Option Json}
    {state : StateSpec} (read : plainFields? kind initial entry exit on after = some state) :
    (state.on.map (·.1)).Nodup := by
  simp only [plainFields?, Option.bind_eq_bind, Option.bind_eq_some_iff, Option.pure_def,
    Option.some.injEq] at read
  obtain ⟨_, _, _, _, _, _, _, _, events, areRead, _, _, rfl⟩ := read
  cases on with
  | none =>
      obtain rfl := Option.some.inj areRead
      exact List.nodup_nil
  | some json => exact nodup_candidatesOfJson? areRead

theorem id_plainFields? {kind initial entry exit on after : Option Json} {state : StateSpec}
    (read : plainFields? kind initial entry exit on after = some state) : state.id = none := by
  simp only [plainFields?, Option.bind_eq_bind, Option.bind_eq_some_iff, Option.pure_def,
    Option.some.injEq] at read
  obtain ⟨_, _, _, _, _, _, _, _, _, _, _, _, rfl⟩ := read
  rfl

/-- Children that are settled one by one are settled together once repeated keys are merged. -/
theorem settled_settle {children : List (String × StateSpec)}
    (each : ∀ child ∈ children, child.2.Settled) :
    ((Keyed.settle children).map (·.1)).Nodup ∧
      ∀ child ∈ Keyed.settle children, child.2.Settled := by
  obtain ⟨keys, fromBefore⟩ := Keyed.settle_spec children
  refine ⟨keys, fun child member => ?_⟩
  obtain ⟨original, isThere, same⟩ := fromBefore child member
  exact same ▸ each original isThere

mutual
/-- A state that is read from a text is settled, whatever fields are repeated. -/
theorem settled_ofJson? {json : Json} {spec : StateSpec} (read : ofJson? json = some spec) :
    spec.Settled := by
  rw [ofJson?] at read
  split at read
  · next found =>
    simp only [Option.bind_eq_bind, Option.bind_eq_some_iff, Option.pure_def] at read
    obtain ⟨_, _, plain, isPlain, read⟩ := read
    have events := nodup_on_plainFields? isPlain
    split at read
    · obtain rfl := Option.some.inj read
      exact settled_iff.2 ⟨events, List.nodup_nil, fun _ member => by cases member⟩
    · next fields =>
      have smaller : sizeOf fields < sizeOf json := by
        have object := @Json.sizeOf_lt_of_record? _ _ (.object fields) _ found (by simp)
        rw [Json.object.sizeOf_spec] at object
        omega
      obtain ⟨states, children, read⟩ := Option.bind_eq_some_iff.1 read
      obtain rfl := Option.some.inj read
      obtain ⟨before, areRead, rfl⟩ := Option.map_eq_some_iff.1 children
      exact settled_iff.2 ⟨events, settled_settle (settled_childrenOfJson? fields areRead)⟩
    · simp at read
  · cases read
termination_by sizeOf json

theorem settled_childrenOfJson? (fields : List (String × Json))
    {children : List (String × StateSpec)} (read : childrenOfJson? fields = some children) :
    ∀ child ∈ children, child.2.Settled := by
  match fields with
  | [] =>
      rw [childrenOfJson?] at read
      obtain rfl := Option.some.inj read
      exact fun _ member => by cases member
  | (key, value) :: rest =>
      rw [childrenOfJson?] at read
      simp only [Option.bind_eq_bind, Option.bind_eq_some_iff, Option.pure_def] at read
      obtain ⟨first, isRead, others, areRead, read⟩ := read
      obtain rfl := Option.some.inj read
      intro child member
      rcases List.mem_cons.1 member with rfl | later
      · exact settled_ofJson? isRead
      · exact settled_childrenOfJson? rest areRead child later
termination_by sizeOf fields
end

/-- The states that are read from a text or built up piece by piece. -/
inductive Obtained : StateSpec → Prop
  | read {json : Json} {state : StateSpec} : ofJson? json = some state → Obtained state
  | inferred : Obtained {}
  | ofKind (kind : StateKind) : Obtained (ofKind kind)
  | compound (initial : String) : Obtained (compound initial)
  | withId {state : StateSpec} (id : String) : Obtained state → Obtained (state.withId id)
  | startingIn {state : StateSpec} (key : String) :
      Obtained state → Obtained (state.startingIn key)
  | onEntry {state : StateSpec} (action : String) :
      Obtained state → Obtained (state.onEntry action)
  | onExit {state : StateSpec} (action : String) : Obtained state → Obtained (state.onExit action)
  | candidate {state : StateSpec} (event : String) (transition : TransitionSpec) :
      Obtained state → Obtained (state.candidate event transition)
  | delayed {state : StateSpec} (transition : DelayedSpec) :
      Obtained state → Obtained (state.delayed transition)
  | child {state child : StateSpec} (key : String) :
      Obtained state → Obtained child → Obtained (state.child key child)

theorem settled_of_empty {state : StateSpec} (noEvents : state.on = [])
    (noChildren : state.states = []) : state.Settled :=
  settled_iff.2 (by simp [noEvents, noChildren])

/-- Only the events and the children matter. -/
theorem Settled.of_same {state other : StateSpec} (settled : state.Settled)
    (events : other.on = state.on) (children : other.states = state.states) : other.Settled := by
  rw [settled_iff] at settled ⊢
  rwa [events, children]

theorem Settled.candidate {state : StateSpec} (settled : state.Settled) (event : String)
    (transition : TransitionSpec) : (state.candidate event transition).Settled := by
  obtain ⟨events, children⟩ := settled_iff.1 settled
  exact settled_iff.2 ⟨Keyed.nodup_keys_put events, children⟩

theorem Settled.child {state child : StateSpec} (settled : state.Settled) (key : String)
    (childSettled : child.Settled) : (state.child key child).Settled := by
  obtain ⟨events, keys, each⟩ := settled_iff.1 settled
  refine settled_iff.2 ⟨events, Keyed.nodup_keys_put keys, fun entry member => ?_⟩
  rcases Keyed.mem_put member with same | earlier
  · exact same ▸ childSettled
  · exact each entry earlier

theorem Obtained.settled {state : StateSpec} (obtained : state.Obtained) : state.Settled := by
  induction obtained with
  | read isRead => exact settled_ofJson? isRead
  | inferred | ofKind _ | compound _ => exact settled_of_empty rfl rfl
  | withId _ _ ih | startingIn _ _ ih | onEntry _ _ ih | onExit _ _ ih | delayed _ _ ih =>
      exact ih.of_same rfl rfl
  | candidate event transition _ ih => exact ih.candidate event transition
  | child key _ _ ih childIh => exact ih.child key childIh

end StateSpec

namespace MachineSpec

theorem settled_statesOfJson? {json : Option Json} {states : List (String × StateSpec)}
    (read : statesOfJson? json = some states) :
    (states.map (·.1)).Nodup ∧ ∀ child ∈ states, child.2.Settled := by
  unfold statesOfJson? at read
  split at read
  · obtain rfl := Option.some.inj read
    exact ⟨List.nodup_nil, fun _ member => by cases member⟩
  · obtain ⟨before, areRead, rfl⟩ := Option.map_eq_some_iff.1 read
    exact StateSpec.settled_settle (StateSpec.settled_childrenOfJson? _ areRead)
  · cases read

/-- The root of a machine that is read from a text is settled, and has no id of its own. -/
theorem settled_ofText? {text : String} {machine : MachineSpec}
    (read : MachineSpec.ofText? text = some machine) :
    machine.root.Settled ∧ machine.root.id = none := by
  obtain ⟨json, _, read⟩ := Option.bind_eq_some_iff.1 read
  unfold MachineSpec.ofJson? at read
  split at read
  · split at read
    · simp only [Option.bind_eq_bind, Option.bind_eq_some_iff, Option.pure_def] at read
      obtain ⟨_, _, _, _, plain, isPlain, states, areStates, read⟩ := read
      have events := StateSpec.nodup_on_plainFields? isPlain
      have noId := StateSpec.id_plainFields? isPlain
      obtain rfl := Option.some.inj read
      exact ⟨StateSpec.settled_iff.2 ⟨events, settled_statesOfJson? areStates⟩, noId⟩
    · cases read
  · cases read

/-- The machines that are read from a text or built up piece by piece. -/
inductive Obtained : MachineSpec → Prop
  | read {text : String} {machine : MachineSpec} :
      ofText? text = some machine → Obtained machine
  | named (id : String) : Obtained (named id)
  | withContext {machine : MachineSpec} (context : Context) :
      Obtained machine → Obtained (machine.withContext context)
  | parallel {machine : MachineSpec} : Obtained machine → Obtained machine.parallel
  | startingIn {machine : MachineSpec} (key : String) :
      Obtained machine → Obtained (machine.startingIn key)
  | onEntry {machine : MachineSpec} (action : String) :
      Obtained machine → Obtained (machine.onEntry action)
  | candidate {machine : MachineSpec} (event : String) (transition : TransitionSpec) :
      Obtained machine → Obtained (machine.candidate event transition)
  | child {machine : MachineSpec} {child : StateSpec} (key : String) :
      Obtained machine → child.Obtained → Obtained (machine.child key child)

/-- The fields of the root stand beside the id of the machine, so the root has none. -/
theorem Obtained.settled {machine : MachineSpec} (obtained : machine.Obtained) :
    machine.root.Settled ∧ machine.root.id = none := by
  induction obtained with
  | read isRead => exact settled_ofText? isRead
  | named _ => exact ⟨StateSpec.settled_of_empty rfl rfl, rfl⟩
  | withContext _ _ ih => exact ih
  | parallel _ ih | startingIn _ _ ih | onEntry _ _ ih =>
      exact ⟨ih.1.of_same rfl rfl, ih.2⟩
  | candidate event transition _ ih => exact ⟨ih.1.candidate event transition, ih.2⟩
  | child key _ childObtained ih => exact ⟨ih.1.child key childObtained.settled, ih.2⟩

/-- However a machine was obtained, its siblings stand under distinct keys. -/
theorem Obtained.distinct {machine : MachineSpec} (obtained : machine.Obtained) :
    machine.root.Distinct :=
  obtained.settled.1.distinct

end MachineSpec

end Statechart
