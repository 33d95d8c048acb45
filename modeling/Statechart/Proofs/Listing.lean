import Mathlib.Data.List.Forall2
import Statechart.Proofs.Layout

/-!
# Listing a specification

The states that a specification declares, in pre-order, each with its id and with the
declarations of the states around it. Nothing is left out of the listing, and nothing in it
depends on positions. If the shape of the specification is right, its layout says the same as
the listing, entry by entry, and the children of a state stand where its declared children are
listed.
-/

namespace Statechart

/-- A state as it is declared. -/
structure DeclaredState where
  /-- The explicit id, or the id of the parent and the key. -/
  id : String
  key : String
  /-- The declarations of the states around it, the nearest first. -/
  trail : List StateSpec
  spec : StateSpec

/-- A node says what was declared. -/
structure StateNode.Transcribes (node : StateNode) (declared : DeclaredState) : Prop where
  id : node.id = declared.id
  key : node.key = declared.key
  kind : node.kind = declared.spec.resolvedKind
  depth : node.depth = declared.trail.length

namespace StateSpec

mutual
/-- A state and all that is declared below it, in document order. -/
def listing (key id : String) (trail : List StateSpec) : StateSpec → List DeclaredState
  | spec@⟨explicit, _, _, _, _, _, _, states⟩ =>
    let id := explicit.getD id
    ⟨id, key, trail, spec⟩ :: listingOf id (spec :: trail) states

def listingOf (parentId : String) (trail : List StateSpec) :
    List (String × StateSpec) → List DeclaredState
  | [] => []
  | child :: rest =>
    child.2.listing child.1 (parentId ++ "." ++ child.1) trail ++ listingOf parentId trail rest
end

/-- The shape of a state is right: leaves have no children, and paths can name all children. -/
structure Shaped (spec : StateSpec) : Prop where
  leaf : spec.resolvedKind.isLeaf = true → spec.states = []
  keys : ∀ child ∈ spec.states, Layout.keyAllowed child.1 = true

end StateSpec

/-- The states that a machine declares, in document order. -/
def MachineSpec.listing (machine : MachineSpec) : List DeclaredState :=
  machine.root.listing machine.id machine.id []

namespace Layout

section Shape

mutual
theorem errors_eq_nil_iff (key id : String) (trail : List StateSpec) :
    (spec : StateSpec) →
      (errors id spec = [] ↔ ∀ state ∈ spec.listing key id trail, state.spec.Shaped)
  | ⟨explicit, _, _, _, _, _, _, states⟩ => by
      rw [errors, StateSpec.listing, List.forall_mem_cons]
      split
      · next leaf =>
        cases states with
        | nil => simpa [StateSpec.listingOf] using StateSpec.Shaped.mk (fun _ => rfl) (by simp)
        | cons child rest =>
            refine iff_of_false (by simp) fun shaped => ?_
            cases shaped.1.leaf leaf
      · next composite =>
        rw [errorsBelow_eq_nil_iff]
        exact ⟨fun ⟨keys, later⟩ => ⟨⟨fun leaf => absurd leaf composite, keys⟩, later⟩,
          fun ⟨shaped, later⟩ => ⟨shaped.keys, later⟩⟩

theorem errorsBelow_eq_nil_iff (parentId : String) (trail : List StateSpec) :
    (states : List (String × StateSpec)) →
      (errorsBelow parentId states = [] ↔
        (∀ child ∈ states, keyAllowed child.1 = true) ∧
        ∀ state ∈ StateSpec.listingOf parentId trail states, state.spec.Shaped)
  | [] => by simp [errorsBelow, StateSpec.listingOf]
  | child :: rest => by
      have first := errors_eq_nil_iff child.1 (parentId ++ "." ++ child.1) trail child.2
      have later := errorsBelow_eq_nil_iff parentId trail rest
      rw [errorsBelow, StateSpec.listingOf, List.append_eq_nil_iff, later, List.forall_mem_cons,
        List.forall_mem_append]
      split
      · next allowed =>
        rw [first]
        exact ⟨fun ⟨shaped, keys, below⟩ => ⟨⟨allowed, keys⟩, shaped, below⟩,
          fun ⟨⟨_, keys⟩, shaped, below⟩ => ⟨shaped, keys, below⟩⟩
      · next forbidden => exact iff_of_false (by simp) fun ⟨⟨allowed, _⟩, _⟩ => forbidden allowed
end

end Shape

/-- A placed state says what was declared. -/
structure Transcribes (state : PlacedState) (declared : DeclaredState) : Prop where
  node : state.node.Transcribes declared
  spec : state.spec = declared.spec

/-- At a position of a listing stands a state that is declared under a key, within the given
declarations. -/
def Lists (start : Nat) (listed : List DeclaredState) (trail : List StateSpec) (n : Nat)
    (child : String × StateSpec) : Prop :=
  ∃ declared, At start listed n declared ∧
    declared.key = child.1 ∧ declared.spec = child.2 ∧ declared.trail = trail

/-- A stretch of a layout says the same as a stretch of a listing: its entries do, its heads
are the given states, and the children of every state are those that it declares. -/
structure Transcribed (trail : List StateSpec) (heads : List Nat)
    (states : List (String × StateSpec)) (start : Nat) (placed : List PlacedState)
    (listed : List DeclaredState) : Prop where
  entries : List.Forall₂ Transcribes placed listed
  headed : List.Forall₂ (Lists start listed trail) heads states
  children : ∀ {n state declared}, At start placed n state → At start listed n declared →
    List.Forall₂ (Lists start listed (declared.spec :: declared.trail)) state.node.children
      declared.spec.states

section Transcribed

variable {start n : Nat} {trail : List StateSpec} {child : String × StateSpec}
variable {placed : List PlacedState} {first second listed : List DeclaredState}

theorem Lists.append_right (lists : Lists start first trail n child) :
    Lists start (first ++ second) trail n child := by
  obtain ⟨declared, stands, same⟩ := lists
  exact ⟨declared, at_append.2 (.inl stands), same⟩

theorem Lists.append_left (lists : Lists (start + first.length) second trail n child) :
    Lists start (first ++ second) trail n child := by
  obtain ⟨declared, stands, same⟩ := lists
  exact ⟨declared, at_append.2 (.inr stands), same⟩

theorem Lists.cons {declared : DeclaredState} (lists : Lists (start + 1) listed trail n child) :
    Lists start (declared :: listed) trail n child := by
  obtain ⟨other, stands, same⟩ := lists
  exact ⟨other, at_cons.2 (.inr stands), same⟩

namespace Transcribed

theorem nil : Transcribed trail [] [] start [] [] where
  entries := .nil
  headed := .nil
  children stands := absurd stands not_at_nil

theorem append {firstHeads secondHeads : List Nat}
    {firstStates secondStates : List (String × StateSpec)}
    {placedFirst placedSecond : List PlacedState}
    (left : Transcribed trail firstHeads firstStates start placedFirst first)
    (right : Transcribed trail secondHeads secondStates (start + placedFirst.length) placedSecond
      second) :
    Transcribed trail (firstHeads ++ secondHeads) (firstStates ++ secondStates) start
      (placedFirst ++ placedSecond) (first ++ second) := by
  have sameLength := left.entries.length_eq
  refine ⟨List.rel_append left.entries right.entries, List.rel_append ?_ ?_,
    fun {n state declared} stands alsoStands => ?_⟩
  · exact left.headed.imp fun _ _ lists => lists.append_right
  · rw [sameLength] at right
    exact right.headed.imp fun _ _ lists => lists.append_left
  · rw [sameLength] at right
    rcases at_append.1 stands with stands | stands <;>
      rcases at_append.1 alsoStands with alsoStands | alsoStands
    · exact (left.children stands alsoStands).imp fun _ _ lists => lists.append_right
    · have := stands.bounds
      have := alsoStands.bounds
      omega
    · have := stands.bounds
      have := alsoStands.bounds
      omega
    · rw [sameLength] at stands
      exact (right.children stands alsoStands).imp fun _ _ lists => lists.append_left

/-- A state in front of its children and what lies below them. -/
theorem cons {state : PlacedState} {id key : String} {spec : StateSpec}
    (same : Transcribes state ⟨id, key, trail, spec⟩)
    (below : Transcribed (spec :: trail) state.node.children spec.states (start + 1) placed
      listed) :
    Transcribed trail [start] [(key, spec)] start (state :: placed)
      (⟨id, key, trail, spec⟩ :: listed) where
  entries := .cons same below.entries
  headed := .cons ⟨_, at_cons.2 (.inl ⟨rfl, rfl⟩), rfl, rfl, rfl⟩ .nil
  children {n other declared} stands alsoStands := by
    rcases at_cons.1 stands with ⟨rfl, rfl⟩ | stands <;>
      rcases at_cons.1 alsoStands with ⟨isStart, rfl⟩ | alsoStands
    · exact below.headed.imp fun _ _ lists => lists.cons
    · have := alsoStands.bounds
      omega
    · have := stands.bounds
      omega
    · exact (below.children stands alsoStands).imp fun _ _ lists => lists.cons

end Transcribed

end Transcribed

mutual
theorem block_transcribed (key id : String) (parent : Option Nat) (trail : List StateSpec)
    (start : Nat) :
    (spec : StateSpec) → (∀ state ∈ spec.listing key id trail, state.spec.Shaped) →
      Transcribed trail [start] [(key, spec)] start (block key id parent trail.length start spec)
        (spec.listing key id trail)
  | ⟨explicit, _, _, _, _, _, _, states⟩, shaped => by
      rw [StateSpec.listing] at shaped ⊢
      rw [block]
      obtain ⟨shape, later⟩ := List.forall_mem_cons.1 shaped
      refine Transcribed.cons ⟨⟨rfl, rfl, rfl, rfl⟩, rfl⟩ ?_
      split
      · next leaf =>
        obtain rfl : states = [] := shape.leaf leaf
        exact .nil
      · exact blocksOf_transcribed (explicit.getD id) start _ (start + 1) states shape.keys later
          (List.length_cons ..)

theorem blocksOf_transcribed (parentId : String) (parent : Nat) (trail : List StateSpec)
    (start : Nat) :
    (states : List (String × StateSpec)) → (∀ child ∈ states, keyAllowed child.1 = true) →
      (∀ state ∈ StateSpec.listingOf parentId trail states, state.spec.Shaped) →
      ∀ {depth}, trail.length = depth + 1 →
      Transcribed trail (blockStarts start (blocksOf parentId parent depth start states)) states
        start (blocksOf parentId parent depth start states).flatten
        (StateSpec.listingOf parentId trail states)
  | [], _, _, _, _ => by
      rw [blocksOf]
      exact .nil
  | child :: rest, keys, shaped, depth, isDepth => by
      rw [StateSpec.listingOf] at shaped ⊢
      obtain ⟨allowed, laterKeys⟩ := List.forall_mem_cons.1 keys
      obtain ⟨here, later⟩ := List.forall_mem_append.1 shaped
      rw [blocksOf, if_pos allowed]
      have first := block_transcribed child.1 (parentId ++ "." ++ child.1) (some parent) trail
        start child.2 here
      rw [isDepth] at first
      exact first.append (blocksOf_transcribed parentId parent trail _ rest laterKeys later isDepth)
end

/-- What is related to a member of one list is a member of the other. -/
theorem exists_of_mem_left {α β : Type} {related : α → β → Prop} {as : List α} {bs : List β}
    (all : List.Forall₂ related as bs) {a : α} (member : a ∈ as) : ∃ b ∈ bs, related a b := by
  induction all with
  | nil => cases member
  | cons first _ ih =>
      rcases List.mem_cons.1 member with rfl | later
      · exact ⟨_, .head _, first⟩
      · obtain ⟨b, isThere, holds⟩ := ih later
        exact ⟨b, .tail _ isThere, holds⟩

theorem at_zero_iff {α : Type} {n : Nat} {placed : List α} {state : α} :
    At 0 placed n state ↔ placed[n]? = some state := by
  simp [At]

end Layout

namespace MachineSpec

/-- All states of a machine have the right shape. -/
def Shaped (machine : MachineSpec) : Prop := ∀ state ∈ machine.listing, state.spec.Shaped

theorem errors_eq_nil_iff_shaped {machine : MachineSpec} :
    Layout.errors machine.id machine.root = [] ↔ machine.Shaped :=
  Layout.errors_eq_nil_iff _ _ _ _

/-- Where a machine lists a state that is declared under a key, within the given declarations. -/
def ListsAt (machine : MachineSpec) (trail : List StateSpec) (n : Nat)
    (child : String × StateSpec) : Prop :=
  ∃ declared, machine.listing[n]? = some declared ∧
    declared.key = child.1 ∧ declared.spec = child.2 ∧ declared.trail = trail

end MachineSpec

namespace StateTree

open Layout

variable {machine : MachineSpec} {n p : Nat} {declared above : DeclaredState}

theorem transcribed_ofMachine (shaped : machine.Shaped) :
    Transcribed [] [0] [(machine.id, machine.root)] 0 (Layout.ofMachine machine) machine.listing :=
  block_transcribed machine.id machine.id none [] 0 machine.root shaped

theorem size_eq_length_listing (shaped : machine.Shaped) :
    (ofMachine machine).size = machine.listing.length := by
  rw [size_ofMachine, (transcribed_ofMachine shaped).entries.length_eq]

theorem ids_ofMachine (shaped : machine.Shaped) :
    (ofMachine machine).nodes.toList.map (·.id) = machine.listing.map (·.id) := by
  have entries := (transcribed_ofMachine shaped).entries
  have sameIds : List.Forall₂ (· = ·) ((Layout.ofMachine machine).map (·.node.id))
      (machine.listing.map (·.id)) :=
    List.forall₂_map_left_iff.2
      (List.forall₂_map_right_iff.2 (entries.imp fun _ _ same => same.node.id))
  rw [List.forall₂_eq_eq_eq] at sameIds
  simpa [ofMachine, Function.comp_def] using sameIds

/-- Every listed state is placed, and says what was declared. -/
theorem exists_placed (shaped : machine.Shaped) (listed : machine.listing[n]? = some declared) :
    ∃ state, At 0 (Layout.ofMachine machine) n state ∧ Transcribes state declared := by
  obtain ⟨inListing, rfl⟩ := List.getElem?_eq_some_iff.1 listed
  have entries := (transcribed_ofMachine shaped).entries
  have inLayout : n < (Layout.ofMachine machine).length := by rwa [entries.length_eq]
  exact ⟨_, at_zero_iff.2 (List.getElem?_eq_getElem inLayout), entries.get inLayout inListing⟩

theorem node_of_listed (shaped : machine.Shaped) (listed : machine.listing[n]? = some declared) :
    ((ofMachine machine).node n).Transcribes declared := by
  obtain ⟨state, stands, same⟩ := exists_placed shaped listed
  rw [node_of_at stands]
  exact same.node

/-- The children of a listed state stand where the children that it declares are listed. -/
theorem children_of_listed (shaped : machine.Shaped)
    (listed : machine.listing[n]? = some declared) :
    List.Forall₂ (machine.ListsAt (declared.spec :: declared.trail))
      ((ofMachine machine).children n) declared.spec.states := by
  obtain ⟨state, stands, _⟩ := exists_placed shaped listed
  rw [children, node_of_at stands]
  refine ((transcribed_ofMachine shaped).children stands (at_zero_iff.2 listed)).imp
    fun _ _ lists => ?_
  obtain ⟨other, alsoStands, same⟩ := lists
  exact ⟨other, at_zero_iff.1 alsoStands, same⟩

/-- A state is declared right within its parent. -/
theorem trail_of_parent (shaped : machine.Shaped) (listed : machine.listing[n]? = some declared)
    (parentListed : machine.listing[p]? = some above)
    (isParent : (ofMachine machine).parent? n = some p) :
    declared.trail = above.spec :: above.trail := by
  have isChild := (linked_ofMachine machine).parent_iff.1 isParent
  obtain ⟨_, _, other, otherListed, _, _, same⟩ :=
    exists_of_mem_left (children_of_listed shaped parentListed) isChild
  obtain rfl := Option.some.inj (listed.symm.trans otherListed)
  exact same

theorem exists_listed (shaped : machine.Shaped) (inTree : n < (ofMachine machine).size) :
    ∃ declared, machine.listing[n]? = some declared := by
  rw [size_eq_length_listing shaped] at inTree
  exact ⟨_, List.getElem?_eq_getElem inTree⟩

theorem lt_size_of_listed (shaped : machine.Shaped)
    (listed : machine.listing[n]? = some declared) : n < (ofMachine machine).size := by
  rw [size_eq_length_listing shaped]
  exact (List.getElem?_eq_some_iff.1 listed).1

/-- Around the root nothing is declared. -/
theorem trail_of_orphan (shaped : machine.Shaped) (listed : machine.listing[n]? = some declared)
    (orphan : (ofMachine machine).parent? n = none) : declared.trail = [] := by
  obtain rfl : n = root := by
    refine Decidable.byContradiction fun notRoot => ?_
    obtain ⟨p, isParent⟩ :=
      (linked_ofMachine machine).rooted (lt_size_of_listed shaped listed) notRoot
    simp [orphan] at isParent
  have headed := (transcribed_ofMachine shaped).headed
  obtain ⟨first, stands, _, _, noTrail⟩ := (List.forall₂_cons.1 headed).1
  obtain rfl := Option.some.inj (listed.symm.trans (at_zero_iff.1 stands))
  exact noTrail

end StateTree

end Statechart
