import Statechart.Proofs.Build
import Statechart.Proofs.Listing

/-!
# Valid specifications

When a specification is valid, said of the states that it declares: of their keys, ids and
children, and of where their targets lead in the specification itself. These are exactly the
specifications from which a definition is built.
-/

namespace Statechart

namespace Path

theorem mem_cuts {front back text : List Char} :
    (front, back) ∈ cuts text ↔ text = front ++ '.' :: back := by
  induction text generalizing front with
  | nil => simp [cuts]
  | cons c rest ih =>
      have later : (front, back) ∈ (cuts rest).map (fun cut => (c :: cut.1, cut.2)) ↔
          ∃ inner, front = c :: inner ∧ rest = inner ++ '.' :: back := by
        simp only [List.mem_map, Prod.exists, Prod.mk.injEq]
        constructor
        · rintro ⟨inner, _, isCut, rfl, rfl⟩
          exact ⟨inner, rfl, ih.1 isCut⟩
        · rintro ⟨inner, rfl, isCut⟩
          exact ⟨inner, back, ih.2 isCut, rfl, rfl⟩
      rw [cuts]
      split
      · next isDot =>
        subst isDot
        rw [List.mem_append, later]
        cases front with
        | nil => simp [eq_comm]
        | cons head inner => simp [eq_comm]
      · next notDot =>
        rw [later]
        cases front <;> simp [notDot, eq_comm]

end Path

namespace StateSpec

/-- The declaration to which keys lead, from child to child. -/
def descend? (spec : StateSpec) (keys : List String) : Option StateSpec :=
  keys.foldlM (fun spec key => spec.states.lookup key) spec

end StateSpec

namespace MachineSpec

/-- A target leads from a declared state to some state of the machine. An absolute target
consists of an id, or of an id and a path that leads on from there; a target that starts with a
dot leads on from the state, any other from the state around it, or from the root if it is the
root. -/
def Leads (machine : MachineSpec) (source : DeclaredState) (target : String) : Prop :=
  match target.toList with
  | '#' :: absolute =>
    ∃ state ∈ machine.listing, absolute = state.id.toList ∨
      ∃ back, absolute = state.id.toList ++ '.' :: back ∧
        (state.spec.descend? ((Path.split back).map String.ofList)).isSome
  | '.' :: below => (source.spec.descend? ((Path.split below).map String.ofList)).isSome
  | relative =>
    let base := source.trail.head?.getD source.spec
    (base.descend? ((Path.split relative).map String.ofList)).isSome

section Leads

variable {machine : MachineSpec} {source : DeclaredState} {target : String} {text : List Char}

theorem leads_absolute (isAbsolute : target.toList = '#' :: text) :
    machine.Leads source target ↔
      ∃ state ∈ machine.listing, text = state.id.toList ∨
        ∃ back, text = state.id.toList ++ '.' :: back ∧
          (state.spec.descend? ((Path.split back).map String.ofList)).isSome := by
  simp only [Leads, isAbsolute]

theorem leads_below (isBelow : target.toList = '.' :: text) :
    machine.Leads source target ↔
      (source.spec.descend? ((Path.split text).map String.ofList)).isSome = true := by
  simp only [Leads, isBelow]

theorem leads_relative (notAbsolute : ∀ rest, target.toList ≠ '#' :: rest)
    (notBelow : ∀ rest, target.toList ≠ '.' :: rest) :
    machine.Leads source target ↔
      ((source.trail.head?.getD source.spec).descend?
        ((Path.split target.toList).map String.ofList)).isSome = true := by
  unfold Leads
  split
  · next isAbsolute => exact absurd isAbsolute (notAbsolute _)
  · next isBelow => exact absurd isBelow (notBelow _)
  · rfl

end Leads

end MachineSpec

/-- What is asked of a declared state. -/
structure DeclaredState.Valid (machine : MachineSpec) (state : DeclaredState) : Prop where
  keys : ∀ child ∈ state.spec.states, child.1 ≠ "" ∧ '.' ∉ child.1.toList ∧ '#' ∉ child.1.toList
  leaf : state.spec.resolvedKind.isLeaf = true → state.spec.states = []
  composite : state.spec.resolvedKind.isLeaf = false → state.spec.states ≠ []
  initial : state.spec.resolvedKind = .compound →
    ∃ child ∈ state.spec.states, state.spec.initial = some child.1
  unexpected : state.spec.resolvedKind ≠ .compound → state.spec.initial = none
  targets : ∀ entry ∈ state.spec.on, ∀ candidate ∈ entry.2, ∀ target,
    candidate.target = some target → machine.Leads state target
  delays : ∀ delayed ∈ state.spec.after,
    1 ≤ delayed.millis.toNat ∧ machine.Leads state delayed.target

/-- A specification from which a machine can be built. -/
structure MachineSpec.Valid (machine : MachineSpec) : Prop where
  named : machine.id ≠ ""
  ids : (machine.listing.map (·.id)).Nodup
  states : ∀ state ∈ machine.listing, state.Valid machine

theorem Layout.keyAllowed_iff {key : String} :
    keyAllowed key = true ↔ key ≠ "" ∧ '.' ∉ key.toList ∧ '#' ∉ key.toList := by
  simp only [keyAllowed, Bool.and_eq_true, Bool.not_eq_true', List.all_eq_true, bne_iff_ne, ne_eq]
  rw [← Bool.not_eq_true, String.isEmpty_iff]
  refine and_congr_right fun _ => ⟨fun all => ⟨fun dot => (all _ dot).1 rfl,
    fun hash => (all _ hash).2 rfl⟩, fun ⟨noDot, noHash⟩ c member => ⟨?_, ?_⟩⟩
  · rintro rfl
    exact noDot member
  · rintro rfl
    exact noHash member

/-- At a position of a machine's listing stands a state with this declaration. -/
def MachineSpec.DeclaresAt (machine : MachineSpec) (n : Nat) (spec : StateSpec) : Prop :=
  ∃ declared, machine.listing[n]? = some declared ∧ declared.spec = spec

namespace StateTree

open Layout

variable {machine : MachineSpec} {n : Nat} {spec : StateSpec} {declared : DeclaredState}
variable {target : String}

/-- A child is found by its key exactly if it is declared under it. -/
theorem childByKey?_related (shaped : machine.Shaped) (declares : machine.DeclaresAt n spec)
    (key : String) :
    Option.Rel machine.DeclaresAt ((ofMachine machine).childByKey? n key)
      (spec.states.lookup key) := by
  obtain ⟨declared, listed, rfl⟩ := declares
  have all := children_of_listed shaped listed
  rw [childByKey?]
  generalize (ofMachine machine).children n = children at all ⊢
  generalize declared.spec.states = states at all ⊢
  induction all with
  | nil => exact .none
  | @cons c child _ _ first _ ih =>
      obtain ⟨below, belowListed, isKey, isSpec, _⟩ := first
      have keyOfChild := (node_of_listed shaped belowListed).key.trans isKey
      rw [List.find?_cons, List.lookup_cons, keyOfChild]
      by_cases isThere : child.1 = key
      · simpa [isThere] using Option.Rel.some ⟨below, belowListed, isSpec⟩
      · rw [beq_false_of_ne isThere, beq_false_of_ne (Ne.symm isThere)]
        exact ih

/-- A path leads on in the tree exactly if it does in the specification. -/
theorem descend?_related (shaped : machine.Shaped) (keys : List String)
    (declares : machine.DeclaresAt n spec) :
    Option.Rel machine.DeclaresAt ((ofMachine machine).descend? n keys) (spec.descend? keys) := by
  induction keys generalizing n spec with
  | nil => exact .some declares
  | cons key rest ih =>
      have first := childByKey?_related shaped declares key
      simp only [descend?, StateSpec.descend?, List.foldlM_cons]
      generalize (ofMachine machine).childByKey? n key = found at first ⊢
      generalize spec.states.lookup key = declaredChild at first ⊢
      cases first with
      | none => exact .none
      | some below => exact ih below

theorem isSome_eq_of_related {α β : Type} {related : α → β → Prop} {a : Option α} {b : Option β}
    (rel : Option.Rel related a b) : a.isSome = b.isSome := by
  cases rel <;> rfl

theorem isSome_descend?_eq (shaped : machine.Shaped) (declares : machine.DeclaresAt n spec)
    (keys : List String) :
    ((ofMachine machine).descend? n keys).isSome = (spec.descend? keys).isSome :=
  isSome_eq_of_related (descend?_related shaped keys declares)

/-- Where ids are distinct, a state is looked up by the id that is listed for it. -/
theorem lookup?_iff_listed (shaped : machine.Shaped)
    (distinct : (machine.listing.map (·.id)).Nodup) {id : String} :
    (ofMachine machine).lookup? id = some n ↔
      ∃ declared, machine.listing[n]? = some declared ∧ declared.id = id := by
  rw [lookup?_eq_some_iff (by rwa [ids_ofMachine shaped])]
  constructor
  · rintro ⟨inTree, rfl⟩
    obtain ⟨declared, listed⟩ := exists_listed shaped inTree
    exact ⟨declared, listed, (node_of_listed shaped listed).id.symm⟩
  · rintro ⟨declared, listed, rfl⟩
    exact ⟨lt_size_of_listed shaped listed, (node_of_listed shaped listed).id⟩

/-- An absolute target resolves to a state that has an id, or that a path leads to from there. -/
theorem isSome_resolveAbsolute?_iff (shaped : machine.Shaped)
    (distinct : (machine.listing.map (·.id)).Nodup) {absolute : List Char} :
    ((ofMachine machine).resolveAbsolute? absolute).isSome = true ↔
      ∃ state ∈ machine.listing, absolute = state.id.toList ∨
        ∃ back, absolute = state.id.toList ++ '.' :: back ∧
          (state.spec.descend? ((Path.split back).map String.ofList)).isSome := by
  have whole : ((ofMachine machine).lookup? (String.ofList absolute)).isSome = true ↔
      ∃ state ∈ machine.listing, absolute = state.id.toList := by
    rw [Option.isSome_iff_exists]
    constructor
    · rintro ⟨n, found⟩
      obtain ⟨state, listed, isId⟩ := (lookup?_iff_listed shaped distinct).1 found
      exact ⟨state, List.mem_of_getElem? listed, by rw [isId, String.toList_ofList]⟩
    · rintro ⟨state, member, rfl⟩
      obtain ⟨n, listed⟩ := List.mem_iff_getElem?.1 member
      exact ⟨n, (lookup?_iff_listed shaped distinct).2 ⟨state, listed, by simp⟩⟩
  rw [resolveAbsolute?, Option.isSome_or, Bool.or_eq_true, whole, List.findSome?_isSome_iff]
  simp only [and_or_left, exists_or]
  refine or_congr_right ⟨?_, ?_⟩
  · rintro ⟨⟨front, back⟩, isCut, leads⟩
    cases found : (ofMachine machine).lookup? (String.ofList front) with
    | none => simp [found] at leads
    | some base =>
        obtain ⟨state, listed, isId⟩ := (lookup?_iff_listed shaped distinct).1 found
        have isFront : state.id.toList = front := by rw [isId, String.toList_ofList]
        refine ⟨state, List.mem_of_getElem? listed, back, ?_, ?_⟩
        · rw [isFront]
          exact Path.mem_cuts.1 isCut
        · rw [← isSome_descend?_eq shaped ⟨state, listed, rfl⟩]
          simpa [found] using leads
  · rintro ⟨state, member, back, rfl, leads⟩
    obtain ⟨n, listed⟩ := List.mem_iff_getElem?.1 member
    have found : (ofMachine machine).lookup? state.id = some n :=
      (lookup?_iff_listed shaped distinct).2 ⟨state, listed, rfl⟩
    refine ⟨(state.id.toList, back), Path.mem_cuts.2 rfl, ?_⟩
    rw [← isSome_descend?_eq shaped ⟨state, listed, rfl⟩] at leads
    simpa [found] using leads

/-- Relative targets start from the state around their source. -/
theorem declaresAt_base (shaped : machine.Shaped) (listed : machine.listing[n]? = some declared) :
    machine.DeclaresAt (((ofMachine machine).parent? n).getD n)
      (declared.trail.head?.getD declared.spec) := by
  cases isParent : (ofMachine machine).parent? n with
  | none =>
      rw [trail_of_orphan shaped listed isParent]
      exact ⟨declared, listed, rfl⟩
  | some p =>
      have inTree : p < (ofMachine machine).size :=
        Nat.lt_trans ((ofMachine machine).parent_lt isParent) (lt_size_of_listed shaped listed)
      obtain ⟨above, parentListed⟩ := exists_listed shaped inTree
      rw [trail_of_parent shaped listed parentListed isParent]
      exact ⟨above, parentListed, rfl⟩

/-- A target resolves in the tree exactly if it leads somewhere in the specification. -/
theorem isSome_resolve?_iff (shaped : machine.Shaped)
    (distinct : (machine.listing.map (·.id)).Nodup)
    (listed : machine.listing[n]? = some declared) :
    ((ofMachine machine).resolve? n target).isSome = true ↔ machine.Leads declared target := by
  unfold resolve?
  split
  · next absolute isAbsolute =>
    rw [MachineSpec.leads_absolute isAbsolute]
    exact isSome_resolveAbsolute?_iff shaped distinct
  · next below isBelow =>
    rw [MachineSpec.leads_below isBelow, isSome_descend?_eq shaped ⟨declared, listed, rfl⟩]
  · next relative notAbsolute notBelow =>
    rw [MachineSpec.leads_relative notAbsolute notBelow,
      isSome_descend?_eq shaped (declaresAt_base shaped listed)]

theorem children_eq_nil_iff (shaped : machine.Shaped)
    (listed : machine.listing[n]? = some declared) :
    (ofMachine machine).children n = [] ↔ declared.spec.states = [] := by
  rw [← List.length_eq_zero_iff, (children_of_listed shaped listed).length_eq,
    List.length_eq_zero_iff]

theorem isSome_childByKey?_iff (shaped : machine.Shaped)
    (listed : machine.listing[n]? = some declared) {key : String} :
    ((ofMachine machine).childByKey? n key).isSome = true ↔
      ∃ child ∈ declared.spec.states, child.1 = key := by
  rw [isSome_eq_of_related (childByKey?_related shaped ⟨declared, listed, rfl⟩ key),
    List.lookup_isSome_iff]
  simp only [beq_iff_eq, @eq_comm _ key]

/-- Nothing is wrong with what a state does exactly if it is valid. -/
theorem behaviourErrors_eq_nil_iff_valid (shaped : machine.Shaped)
    (distinct : (machine.listing.map (·.id)).Nodup)
    (listed : machine.listing[n]? = some declared) :
    (ofMachine machine).behaviourErrors n declared.spec = [] ↔ declared.Valid machine := by
  have leads : ∀ target, ((ofMachine machine).resolve? n target).isSome = true ↔
      machine.Leads declared target := fun _ => isSome_resolve?_iff shaped distinct listed
  have isKind : (ofMachine machine).kind n = declared.spec.resolvedKind :=
    (node_of_listed shaped listed).kind
  have positive : ∀ millis : UInt64, millis ≠ 0 ↔ 1 ≤ millis.toNat := by
    intro millis
    rw [Nat.one_le_iff_ne_zero, ne_eq, ne_eq, ← UInt64.toNat_inj]
    rfl
  simp only [behaviourErrors_eq_nil_iff, initialErrors_eq_nil_iff, isLeaf_eq,
    isKind, ne_eq, children_eq_nil_iff shaped listed,
    isSome_childByKey?_iff shaped listed, leads]
  have shape := shaped declared (List.mem_of_getElem? listed)
  constructor
  · rintro ⟨⟨composite, initial, unexpected⟩, targets, delays⟩
    refine ⟨fun child member => Layout.keyAllowed_iff.1 (shape.keys child member), shape.leaf,
      composite, fun isCompound => ?_, unexpected, targets, fun delayed member => ?_⟩
    · obtain ⟨key, isInitial, child, member, rfl⟩ := initial isCompound
      exact ⟨child, member, isInitial⟩
    · obtain ⟨notZero, leadsOn⟩ := delays delayed member
      exact ⟨(positive _).1 notZero, leadsOn⟩
  · intro valid
    refine ⟨⟨valid.composite, fun isCompound => ?_, valid.unexpected⟩, valid.targets,
      fun delayed member => ?_⟩
    · obtain ⟨child, member, isInitial⟩ := valid.initial isCompound
      exact ⟨child.1, isInitial, child, member, rfl⟩
    · obtain ⟨atLeastOne, leadsOn⟩ := valid.delays delayed member
      exact ⟨(positive _).2 atLeastOne, leadsOn⟩

end StateTree

namespace MachineSpec

open Layout

variable {machine : MachineSpec}

theorem Valid.shaped (valid : machine.Valid) : machine.Shaped := fun state member =>
  ⟨(valid.states state member).leaf, fun child isChild =>
    keyAllowed_iff.2 ((valid.states state member).keys child isChild)⟩

/-- A definition is built from a specification exactly if it is valid. -/
theorem exists_build_iff_valid :
    (∃ definition, machine.build = .ok definition) ↔ machine.Valid := by
  have noProblems : (∃ definition, machine.build = .ok definition) ↔ machine.problems = [] := by
    simp only [build_eq_ok_iff, exists_and_left, exists_eq', and_true]
  rw [noProblems, problems_eq_nil_iff, errors_eq_nil_iff_shaped]
  constructor
  · rintro ⟨named, shaped, notRepeated, noErrors⟩
    rw [StateTree.ids_ofMachine shaped, repeatedIds_eq_nil_iff] at notRepeated
    refine ⟨named, notRepeated.1, fun declared member => ?_⟩
    obtain ⟨n, listed⟩ := List.mem_iff_getElem?.1 member
    obtain ⟨state, stands, same⟩ := StateTree.exists_placed shaped listed
    have noError := noErrors n state stands
    rw [same.spec] at noError
    exact (StateTree.behaviourErrors_eq_nil_iff_valid shaped notRepeated.1 listed).1 noError
  · intro valid
    have shaped := valid.shaped
    refine ⟨valid.named, shaped, ?_, fun n state stands => ?_⟩
    · rw [StateTree.ids_ofMachine shaped, repeatedIds_eq_nil_iff]
      exact ⟨valid.ids, by simp⟩
    · obtain ⟨declared, listed⟩ : ∃ declared, machine.listing[n]? = some declared := by
        refine StateTree.exists_listed shaped ?_
        have inLayout := stands.bounds.2
        rwa [Nat.zero_add, ← StateTree.size_ofMachine] at inLayout
      obtain ⟨other, alsoStands, same⟩ := StateTree.exists_placed shaped listed
      obtain rfl := stands.unique alsoStands
      rw [same.spec]
      exact (StateTree.behaviourErrors_eq_nil_iff_valid shaped valid.ids listed).2
        (valid.states declared (List.mem_of_getElem? listed))

end MachineSpec

end Statechart
