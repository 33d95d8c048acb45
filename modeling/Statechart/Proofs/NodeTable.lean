import Mathlib.Data.List.Nodup
import Mathlib.Logic.Relation
import Statechart.Proofs.Build
import Statechart.Proofs.Listing
import Statechart.Proofs.Siblings

/-!
# The table of a built machine

The table of a definition that is built lists what the specification declares, in the same
order. What lies below a state is what follows it up to some position, so that a state with all
that lies below it takes a block of the table.
-/

namespace Statechart

namespace Layout

/-- What lies below the states of a stretch lies in blocks: each state has a last position such
that states up to there, and no others, have their parents between. -/
def Spanned (start : Nat) (placed : List PlacedState) : Prop :=
  ∀ {n state}, At start placed n state → ∃ last, n ≤ last ∧ last < start + placed.length ∧
    ∀ {m other p}, At start placed m other → other.node.parent = some p →
      ((n ≤ p ∧ p ≤ last) ↔ (n < m ∧ m ≤ last))

namespace Spanned

variable {start : Nat} {outer : Option Nat} {placed first second : List PlacedState}

theorem nil : Spanned start [] := fun stands => absurd stands not_at_nil

/-- Parents stand in the stretch, unless they are the outer parent. -/
theorem parent_bounds {heads : List Nat} (linked : Interlinked outer heads start placed)
    {m p : Nat} {other : PlacedState} (stands : At start placed m other)
    (isParent : other.node.parent = some p) :
    outer = some p ∨ (start ≤ p ∧ p < start + placed.length) := by
  rcases linked.upward stands with ⟨_, isOuter⟩ | ⟨q, above, aboveStands, isAbove, _⟩
  · exact .inl (isOuter.symm.trans isParent)
  · obtain rfl := Option.some.inj (isAbove.symm.trans isParent)
    exact .inr aboveStands.bounds

theorem append {firstHeads secondHeads : List Nat}
    (linkedFirst : Interlinked outer firstHeads start first)
    (linkedSecond : Interlinked outer secondHeads (start + first.length) second)
    (before : ∀ q, outer = some q → q < start) (left : Spanned start first)
    (right : Spanned (start + first.length) second) : Spanned start (first ++ second) := by
  intro n state stands
  rw [List.length_append]
  rcases at_append.1 stands with stands | stands
  · obtain ⟨last, notBefore, inFirst, spans⟩ := left stands
    refine ⟨last, notBefore, by omega, fun {m other p} alsoStands isParent => ?_⟩
    rcases at_append.1 alsoStands with alsoStands | alsoStands
    · exact spans alsoStands isParent
    · have := stands.bounds
      have := alsoStands.bounds
      rcases parent_bounds linkedSecond alsoStands isParent with isOuter | inside
      · have := before p isOuter
        omega
      · omega
  · obtain ⟨last, notBefore, inSecond, spans⟩ := right stands
    refine ⟨last, notBefore, by omega, fun {m other p} alsoStands isParent => ?_⟩
    rcases at_append.1 alsoStands with alsoStands | alsoStands
    · have := stands.bounds
      have := alsoStands.bounds
      rcases parent_bounds linkedFirst alsoStands isParent with isOuter | inside
      · have := before p isOuter
        omega
      · omega
    · exact spans alsoStands isParent

/-- A state in front of what lies below it. -/
theorem cons {state : PlacedState} {heads : List Nat} (isOuter : state.node.parent = outer)
    (before : ∀ q, outer = some q → q < start)
    (linked : Interlinked (some start) heads (start + 1) placed)
    (below : Spanned (start + 1) placed) : Spanned start (state :: placed) := by
  intro n other stands
  rw [List.length_cons]
  rcases at_cons.1 stands with ⟨rfl, rfl⟩ | stands
  · refine ⟨n + placed.length, by omega, by omega, fun {m another p} alsoStands isParent => ?_⟩
    rcases at_cons.1 alsoStands with ⟨rfl, rfl⟩ | alsoStands
    · have := before p (isOuter.symm.trans isParent)
      omega
    · have := alsoStands.bounds
      rcases parent_bounds linked alsoStands isParent with isStart | inside
      · obtain rfl := Option.some.inj isStart
        omega
      · omega
  · obtain ⟨last, notBefore, inside, spans⟩ := below stands
    have := stands.bounds
    refine ⟨last, notBefore, by omega, fun {m another p} alsoStands isParent => ?_⟩
    rcases at_cons.1 alsoStands with ⟨rfl, rfl⟩ | alsoStands
    · have := before p (isOuter.symm.trans isParent)
      omega
    · exact spans alsoStands isParent

end Spanned

mutual
theorem block_spanned (key id : String) (parent : Option Nat) (depth start : Nat)
    (before : ∀ q, parent = some q → q < start) :
    (spec : StateSpec) → Spanned start (block key id parent depth start spec)
  | ⟨explicit, _, _, _, _, _, _, states⟩ => by
      rw [block]
      split
      · exact Spanned.cons rfl before Interlinked.nil Spanned.nil
      · exact Spanned.cons rfl before (blocksOf_interlinked _ start depth (start + 1) states)
          (blocksOf_spanned _ start depth (start + 1) (Nat.lt_succ_self start) states)

theorem blocksOf_spanned (parentId : String) (parent depth start : Nat) (before : parent < start) :
    (states : List (String × StateSpec)) →
      Spanned start (blocksOf parentId parent depth start states).flatten
  | [] => by
      rw [blocksOf]
      exact Spanned.nil
  | child :: rest => by
      have outerBefore : ∀ q, some parent = some q → q < start :=
        fun q same => Option.some.inj same ▸ before
      rw [blocksOf]
      split
      · exact Spanned.append
          (block_interlinked child.1 (parentId ++ "." ++ child.1) (some parent) (depth + 1) start
            child.2)
          (blocksOf_interlinked parentId parent depth _ rest) outerBefore
          (block_spanned child.1 (parentId ++ "." ++ child.1) (some parent) (depth + 1) start
            outerBefore child.2)
          (blocksOf_spanned parentId parent depth _ (by omega) rest)
      · exact blocksOf_spanned parentId parent depth start before rest
end

theorem ofMachine_spanned (machine : MachineSpec) : Spanned 0 (ofMachine machine) :=
  block_spanned _ _ _ _ _ (by simp) _

end Layout

namespace StateTree

open Layout

variable {tree : StateTree} {machine : MachineSpec} {n : Nat} {declared : DeclaredState}

/-- What lies below a state is what follows it up to some position. -/
theorem exists_span (inTree : n < (ofMachine machine).size) :
    ∃ k, n + k < (ofMachine machine).size ∧
      ∀ m, (ofMachine machine).Below m n ↔ n < m ∧ m ≤ n + k := by
  obtain ⟨state, stands⟩ := exists_at inTree
  obtain ⟨last, notBefore, inside, spans⟩ := ofMachine_spanned machine stands
  rw [Nat.zero_add, ← size_ofMachine] at inside
  have isLast : n + (last - n) = last := by omega
  refine ⟨last - n, by rwa [isLast], fun m => ?_⟩
  rw [isLast]
  induction m using Nat.strongRecOn with
  | ind m ih =>
      rw [below_iff]
      cases isParent : (ofMachine machine).parent? m with
      | none =>
          refine iff_of_false (by simp) fun ⟨after, within⟩ => ?_
          have notRoot : m ≠ root := Nat.ne_of_gt (Nat.lt_of_le_of_lt (Nat.zero_le n) after)
          obtain ⟨p, isOther⟩ :=
            (linked_ofMachine machine).rooted (Nat.lt_of_le_of_lt within inside) notRoot
          simp [isParent] at isOther
      | some p =>
          obtain ⟨other, alsoStands⟩ :=
            exists_at ((linked_ofMachine machine).lt_size_of_parent isParent)
          have isAbove : other.node.parent = some p := by
            rw [← node_of_at alsoStands]
            exact isParent
          have onward := ih p ((ofMachine machine).parent_lt isParent)
          rw [← spans alsoStands isAbove]
          simp only [Option.some.injEq, exists_eq_left', Within, onward]
          omega

/-- What is reached from child to child lies below. -/
theorem below_iff_transGen (linked : tree.Linked) {m : Nat} :
    tree.Below m n ↔ Relation.TransGen (fun p c => c ∈ tree.children p) n m := by
  constructor
  · intro below
    induction m using Nat.strongRecOn with
    | ind m ih =>
        obtain ⟨p, isParent, rfl | above⟩ := below_iff.1 below
        · exact .single (linked.parent_iff.1 isParent)
        · exact .tail (ih p (tree.parent_lt isParent) above) (linked.parent_iff.1 isParent)
  · intro reached
    induction reached with
    | single isChild => exact linked.child_below isChild
    | tail _ isChild below => exact (linked.child_below isChild).trans below

theorem length_ancestors (shaped : machine.Shaped)
    (listed : machine.listing[n]? = some declared) :
    ((ofMachine machine).ancestors n).length = declared.trail.length := by
  induction n using Nat.strongRecOn generalizing declared with
  | ind n ih =>
      cases isParent : (ofMachine machine).parent? n with
      | none => rw [ancestors_of_orphan isParent, trail_of_orphan shaped listed isParent]; rfl
      | some p =>
          have before := (ofMachine machine).parent_lt isParent
          obtain ⟨above, parentListed⟩ :=
            exists_listed shaped (Nat.lt_trans before (lt_size_of_listed shaped listed))
          rw [ancestors_of_parent isParent, trail_of_parent shaped listed parentListed isParent,
            List.length_cons, List.length_cons, ih p before parentListed]

end StateTree

namespace Definition

variable (definition : Definition)

/-- A transition of a state is what is declared, with its target resolved from that state. -/
structure Realises (n : Nat) (event : String) (transition : Transition)
    (declared : TransitionSpec) : Prop where
  event : transition.event = event
  source : transition.source = n
  guard : transition.guard = declared.guard
  actions : transition.actions = declared.actions
  target : Option.Rel (fun target text => definition.resolve? n text = some target)
    transition.target declared.target

/-- A delayed transition is what is declared: it has a target, and no guard. -/
structure RealisesDelay (n : Nat) (delayed : DelayedTransition) (declared : DelayedSpec) :
    Prop where
  delay : delayed.delay = .ofMillis declared.millis
  transition : definition.Realises n (definition.delayedEvent n declared) delayed.transition
    ⟨some declared.target, none, declared.actions⟩

/-- The candidates of an event are those that are declared, in declared order. -/
def RealisesEvent (n : Nat) (event : String × List Transition)
    (declared : String × List TransitionSpec) : Prop :=
  event.1 = declared.1 ∧ List.Forall₂ (definition.Realises n event.1) event.2 declared.2

/-- What stands at a position of the table is what is declared of a state. -/
structure Row (machine : MachineSpec) (n : Nat) (declared : DeclaredState) : Prop where
  id : (definition.node n).id = declared.id
  key : (definition.node n).key = declared.key
  kind : definition.kind n = declared.spec.resolvedKind
  children : List.Forall₂ (machine.ListsAt (declared.spec :: declared.trail))
    (definition.children n) declared.spec.states
  initial : Option.Rel (fun c key => c ∈ definition.children n ∧ (definition.node c).key = key)
    (definition.initial? n) declared.spec.initial
  entry : (definition.behaviour n).entry = declared.spec.entry
  exit : (definition.behaviour n).exit = declared.spec.exit
  candidates : List.Forall₂ (definition.RealisesEvent n) (definition.behaviour n).on
    declared.spec.on
  delays : List.Forall₂ (definition.RealisesDelay n) (definition.behaviour n).after
    declared.spec.after

/-- The table of a definition is the pre-order listing of a machine, and the links and indices
in it agree. -/
structure Tabulates (machine : MachineSpec) : Prop where
  size : definition.size = machine.listing.length
  row : ∀ {n : Nat} {declared : DeclaredState}, machine.listing[n]? = some declared →
    definition.Row machine n declared
  orphan : definition.parent? StateTree.root = none
  parent : ∀ {n : Nat}, n < definition.size → n ≠ StateTree.root →
    ∃ p, p < n ∧ definition.parent? n = some p ∧ (definition.children p).count n = 1
  child : ∀ {n p : Nat}, n ∈ definition.children p → definition.parent? n = some p
  increasing : ∀ p : Nat, (definition.children p).Pairwise (· < ·)
  /-- The descendants of a state follow it up to some position. -/
  span : ∀ {n : Nat}, n < definition.size → ∃ k, n + k < definition.size ∧ ∀ m,
    (Relation.TransGen (fun p c => c ∈ definition.children p) n m ↔ n < m ∧ m ≤ n + k) ∧
    (definition.isBelow m n = true ↔ n < m ∧ m ≤ n + k)
  depth : ∀ {n : Nat}, n < definition.size →
    (definition.node n).depth = (definition.ancestors n).length
  ids : ∀ {n m : Nat}, n < definition.size → m < definition.size →
    (definition.node n).id = (definition.node m).id → n = m
  lookup : ∀ {id : String} {n : Nat},
    definition.lookup? id = some n ↔ n < definition.size ∧ (definition.node n).id = id
  siblings : definition.Discrete
  initial : ∀ {n : Nat}, definition.kind n = .compound →
    ∃ c ∈ definition.children n, definition.initial? n = some c
  leaf : ∀ {n : Nat}, definition.isLeaf n = true → definition.children n = []
  source : ∀ {n : Nat} {t : Transition}, t ∈ definition.transitions n → t.source = n
  target : ∀ {n : Nat} {t : Transition} {g : Nat}, t ∈ definition.transitions n →
    t.target = some g → g < definition.size

end Definition

/-- Where a function has a result for every member of a list, none is left out. -/
theorem forall₂_filterMap {α β : Type} {related : β → α → Prop} {f : α → Option β} {as : List α}
    (all : ∀ a ∈ as, ∃ b, f a = some b ∧ related b a) :
    List.Forall₂ related (as.filterMap f) as := by
  induction as with
  | nil => exact .nil
  | cons a rest ih =>
      obtain ⟨b, isResult, holds⟩ := all a (.head _)
      rw [List.filterMap_cons_some isResult]
      exact .cons holds (ih fun other later => all other (.tail _ later))

namespace MachineSpec

open Layout

variable {machine : MachineSpec} {definition : Definition} {n : Nat}

theorem exists_realises {event : String} {declared : TransitionSpec}
    (resolves : ∀ target, declared.target = some target →
      ((StateTree.ofMachine machine).resolve? n target).isSome = true) :
    ∃ transition, (StateTree.ofMachine machine).transitionOf? n event declared = some transition ∧
      machine.resolved.Realises n event transition declared := by
  cases isTarget : declared.target with
  | none =>
      refine ⟨⟨event, n, none, declared.guard, declared.actions⟩,
        by rw [StateTree.transitionOf?, isTarget], ⟨rfl, rfl, rfl, rfl, ?_⟩⟩
      rw [isTarget]
      exact .none
  | some text =>
      obtain ⟨target, found⟩ := Option.isSome_iff_exists.1 (resolves text isTarget)
      refine ⟨⟨event, n, some target, declared.guard, declared.actions⟩,
        by simp [StateTree.transitionOf?, isTarget, found], ⟨rfl, rfl, rfl, rfl, ?_⟩⟩
      rw [isTarget]
      exact .some found

theorem exists_realisesDelay {declared : DelayedSpec} (notZero : declared.millis ≠ 0)
    (resolves : ((StateTree.ofMachine machine).resolve? n declared.target).isSome = true) :
    ∃ delayed, (StateTree.ofMachine machine).delayedOf? n declared = some delayed ∧
      machine.resolved.RealisesDelay n delayed declared := by
  obtain ⟨target, found⟩ := Option.isSome_iff_exists.1 resolves
  exact ⟨⟨declared.delay, (StateTree.ofMachine machine).delayedEvent n declared, n, some target,
      none, declared.actions⟩, by simp [StateTree.delayedOf?, notZero, found],
    ⟨rfl, ⟨rfl, rfl, rfl, rfl, .some found⟩⟩⟩

theorem row_resolved (noProblems : machine.problems = []) {declared : DeclaredState}
    (listed : machine.listing[n]? = some declared) : machine.resolved.Row machine n declared := by
  obtain ⟨_, noShapeErrors, _, noErrors⟩ := problems_eq_nil_iff.1 noProblems
  have shaped := errors_eq_nil_iff_shaped.1 noShapeErrors
  obtain ⟨state, stands, same⟩ := StateTree.exists_placed shaped listed
  have isNode := StateTree.node_of_listed shaped listed
  have behaves := behaviour_resolved stands
  have noError := noErrors n state stands
  rw [same.spec] at behaves noError
  obtain ⟨initialRight, targets, delays⟩ := StateTree.behaviourErrors_eq_nil_iff.1 noError
  refine
    { id := isNode.id
      key := isNode.key
      kind := isNode.kind
      children := StateTree.children_of_listed shaped listed
      initial := ?initial
      entry := congrArg (·.entry) behaves
      exit := congrArg (·.exit) behaves
      candidates := ?candidates
      delays := ?delays }
  case initial =>
    rw [Definition.initial?, behaves]
    exact StateTree.initialOf?_related initialRight
  case candidates =>
    rw [behaves]
    refine List.forall₂_map_left_iff.2 (List.forall₂_same.2 fun entry isEntry => ⟨rfl, ?_⟩)
    exact forall₂_filterMap fun candidate isCandidate =>
      exists_realises (targets entry isEntry candidate isCandidate)
  case delays =>
    rw [behaves]
    exact forall₂_filterMap fun delayed isDelayed =>
      exists_realisesDelay (delays delayed isDelayed).1 (delays delayed isDelayed).2

/-- A definition that is built is the table of its specification. -/
theorem tabulates_of_build (distinct : machine.root.Distinct)
    (built : machine.build = .ok definition) : definition.Tabulates machine := by
  have wellFormed := wellFormed_of_build built
  obtain ⟨noProblems, rfl⟩ := build_eq_ok_iff.1 built
  obtain ⟨_, noShapeErrors, noRepetition, _⟩ := problems_eq_nil_iff.1 noProblems
  have shaped := errors_eq_nil_iff_shaped.1 noShapeErrors
  have distinctIds := (repeatedIds_eq_nil_iff.1 noRepetition).1
  have linked : machine.resolved.Linked := wellFormed.linked
  refine
    { size := StateTree.size_eq_length_listing shaped
      row := row_resolved noProblems
      orphan := StateTree.parent?_root
      parent := fun inTree notRoot => ?parent
      child := linked.parent_iff.2
      increasing := linked.increasing
      span := fun {n} inTree => ?span
      depth := fun {n} inTree => ?depth
      ids := StateTree.eq_of_id distinctIds
      lookup := StateTree.lookup?_eq_some_iff distinctIds
      siblings := StateTree.discrete_ofMachine distinct
      initial := fun isCompound => ?initial
      leaf := linked.childless
      source := wellFormed.source
      target := wellFormed.target }
  case parent =>
    obtain ⟨p, isParent⟩ := linked.rooted inTree notRoot
    exact ⟨p, machine.resolved.parent_lt isParent, isParent,
      List.count_eq_one_of_mem (linked.nodup_children p) (linked.parent_iff.1 isParent)⟩
  case span =>
    obtain ⟨k, inside, below⟩ := StateTree.exists_span inTree
    refine ⟨k, inside, fun m => ⟨?_, StateTree.isBelow_iff.trans (below m)⟩⟩
    rw [← StateTree.below_iff_transGen linked]
    exact below m
  case depth =>
    obtain ⟨declared, listed⟩ := StateTree.exists_listed shaped inTree
    exact (StateTree.node_of_listed shaped listed).depth.trans
      (StateTree.length_ancestors shaped listed).symm
  case initial =>
    obtain ⟨c, isInitial⟩ := wellFormed.initial isCompound
    exact ⟨c, machine.resolved.initial_mem_children isInitial, isInitial⟩

/-- The studio, three levels deep, and the hall with its delays stand in their tables as they are
declared. -/
theorem studio_and_hall_tabulated :
    (studio.root.Distinct ∧ studio.build = .ok studio.resolved ∧
      studio.resolved.Tabulates studio) ∧
    hall.root.Distinct ∧ hall.build = .ok hall.resolved ∧ hall.resolved.Tabulates hall := by
  have studioDistinct : studio.root.Distinct := by decide +kernel
  have hallDistinct : hall.root.Distinct := by decide +kernel
  exact ⟨⟨studioDistinct, studio_built, tabulates_of_build studioDistinct studio_built⟩,
    hallDistinct, hall_built, tabulates_of_build hallDistinct hall_built⟩

end MachineSpec

end Statechart
