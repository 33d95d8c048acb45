import Statechart.Proofs.KeyPaths
import Statechart.Proofs.NodeTable

/-!
# Where targets lead

An absolute target can be cut into an id and the keys behind it in several ways, because ids may
be explicit and have dots. It names the state that is reached from the longest id; without explicit
ids every cut leads to the one state whose id the target is. All other targets are keys that lead
on from the source, or from the state around it.
-/

namespace Statechart

namespace Path

/-- Fronts stand in the order of their lengths, the longest first. -/
theorem cuts_decreasing (text : List Char) :
    (cuts text).Pairwise fun longer shorter => shorter.1.length < longer.1.length := by
  induction text with
  | nil => exact .nil
  | cons c rest ih =>
      have later : ((cuts rest).map fun cut => (c :: cut.1, cut.2)).Pairwise
          fun longer shorter => shorter.1.length < longer.1.length :=
        List.pairwise_map.2 (ih.imp fun shorter => Nat.succ_lt_succ shorter)
      rw [cuts]
      split
      · refine List.pairwise_append.2 ⟨later, List.pairwise_singleton .., ?_⟩
        intro cut isLater whole isWhole
        obtain ⟨_, _, rfl⟩ := List.mem_map.1 isLater
        obtain rfl := List.mem_singleton.1 isWhole
        exact Nat.succ_pos _
      · exact later

theorem length_lt_of_mem_cuts {cut : List Char × List Char} {text : List Char}
    (isCut : cut ∈ cuts text) : cut.1.length < text.length := by
  rw [mem_cuts.1 isCut, List.length_append, List.length_cons]
  omega

end Path

namespace StateTree

variable {tree : StateTree} {source base n m : Nat} {text front other : String}

variable (tree : StateTree) in
/-- A text consists of the keys on a way from one state to another. -/
def Follows (base : Nat) (text : String) (n : Nat) : Prop :=
  ∃ keys, keys ≠ [] ∧ ".".intercalate keys = text ∧ tree.Reaches base keys n

variable (tree : StateTree) in
/-- A front of a text is the id of a state, from which the keys in the rest of the text lead to
another; the front may be the whole text. -/
def NamesThrough (text front : String) (n : Nat) : Prop :=
  ∃ base keys, base < tree.size ∧ (tree.node base).id = front ∧
    ".".intercalate (front :: keys) = text ∧ tree.Reaches base keys n

/-- The segments of a text are followed from a state exactly if they are keys that lead on. -/
theorem descend?_segments_eq_some_iff (discrete : tree.Discrete) (dotless : tree.Dotless) :
    tree.descend? base (Path.segments text) = some n ↔ tree.Follows base text n := by
  rw [descend?_eq_some_iff discrete]
  constructor
  · intro reaches
    exact ⟨_, Path.segments_ne_nil text, Path.intercalate_segments text, reaches⟩
  · rintro ⟨keys, notEmpty, rfl, reaches⟩
    rwa [reaches.segments_eq dotless notEmpty]

theorem resolve?_absolute :
    tree.resolve? source ("#" ++ text) = tree.resolveAbsolute? text.toList := by
  rw [resolve?, String.toList_append]
  rfl

theorem resolve?_below :
    tree.resolve? source ("." ++ text) = tree.descend? source (Path.segments text) := by
  rw [resolve?, String.toList_append]
  rfl

theorem resolve?_relative (notAbsolute : text.toList.head? ≠ some '#')
    (notBelow : text.toList.head? ≠ some '.') :
    tree.resolve? source text =
      tree.descend? ((tree.parent? source).getD source) (Path.segments text) := by
  unfold resolve?
  split
  · next isAbsolute => exact absurd (by rw [isAbsolute]; rfl) notAbsolute
  · next isBelow => exact absurd (by rw [isBelow]; rfl) notBelow
  · rfl

variable (tree : StateTree) in
/-- The state that is reached from the id before a dot by the keys behind it. -/
def behind? (cut : List Char × List Char) : Option Nat :=
  (tree.lookup? (String.ofList cut.1)).bind fun base =>
    tree.descend? base ((Path.split cut.2).map String.ofList)

theorem resolveAbsolute?_eq : tree.resolveAbsolute? text.toList =
    (tree.lookup? text).or ((Path.cuts text.toList).findSome? tree.behind?) := by
  rw [resolveAbsolute?, String.ofList_toList]
  rfl

section Absolute

variable (discrete : tree.Discrete) (dotless : tree.Dotless)
variable (lookedUp : ∀ {id n}, tree.lookup? id = some n ↔ n < tree.size ∧ (tree.node n).id = id)

include discrete dotless lookedUp

theorem behind?_eq_some_iff {front back : List Char} : tree.behind? (front, back) = some n ↔
    ∃ base, (base < tree.size ∧ (tree.node base).id = String.ofList front) ∧
      tree.Follows base (String.ofList back) n := by
  have isSegments : (Path.split back).map String.ofList = Path.segments (String.ofList back) := by
    rw [Path.segments, String.toList_ofList]
  simp only [behind?, isSegments, Option.bind_eq_some_iff, lookedUp,
    descend?_segments_eq_some_iff discrete dotless]

/-- A front through which a text names a state is the whole text, or it is cut off at a dot. -/
theorem namesThrough_iff : tree.NamesThrough text front n ↔
    (front = text ∧ tree.lookup? text = some n) ∨
      ∃ cut ∈ Path.cuts text.toList, String.ofList cut.1 = front ∧ tree.behind? cut = some n := by
  constructor
  · rintro ⟨base, keys, inTree, isId, rfl, reaches⟩
    cases keys with
    | nil =>
        cases reaches
        rw [String.intercalate_singleton]
        exact .inl ⟨rfl, lookedUp.2 ⟨inTree, isId⟩⟩
    | cons key rest =>
        have goesOn : key :: rest ≠ [] := List.cons_ne_nil _ _
        refine .inr ⟨(front.toList, (".".intercalate (key :: rest)).toList), ?_,
          String.ofList_toList, ?_⟩
        · rw [Path.mem_cuts, String.intercalate_cons_of_ne_nil goesOn]
          simp
        · rw [behind?_eq_some_iff discrete dotless lookedUp, String.ofList_toList,
            String.ofList_toList]
          exact ⟨base, ⟨inTree, isId⟩, key :: rest, goesOn, rfl, reaches⟩
  · rintro (⟨rfl, found⟩ | ⟨⟨front, back⟩, isCut, rfl, leads⟩)
    · obtain ⟨inTree, isId⟩ := lookedUp.1 found
      exact ⟨n, [], inTree, isId, String.intercalate_singleton, .here n⟩
    · obtain ⟨base, ⟨inTree, isId⟩, keys, goesOn, isBack, reaches⟩ :=
        (behind?_eq_some_iff discrete dotless lookedUp).1 leads
      refine ⟨base, keys, inTree, isId, ?_, reaches⟩
      rw [String.intercalate_cons_of_ne_nil goesOn, isBack, ← String.toList_inj,
        Path.mem_cuts.1 isCut]
      simp

/-- An absolute target names nothing exactly if none of its fronts leads anywhere. -/
theorem resolveAbsolute?_eq_none_iff :
    tree.resolveAbsolute? text.toList = none ↔ ∀ front n, ¬ tree.NamesThrough text front n := by
  rw [resolveAbsolute?_eq, Option.or_eq_none_iff, List.findSome?_eq_none_iff]
  simp only [namesThrough_iff discrete dotless lookedUp, Option.eq_none_iff_forall_ne_some, ne_eq]
  constructor
  · rintro ⟨noId, noCut⟩ front n (⟨_, found⟩ | ⟨cut, isCut, _, leads⟩)
    · exact noId n found
    · exact noCut cut isCut n leads
  · intro none
    exact ⟨fun n found => none text n (.inl ⟨rfl, found⟩),
      fun cut isCut n leads => none _ n (.inr ⟨cut, isCut, rfl, leads⟩)⟩

/-- What an absolute target names is reached from the longest of its fronts that lead anywhere. -/
theorem exists_longest (found : tree.resolveAbsolute? text.toList = some n) :
    ∃ front, tree.NamesThrough text front n ∧
      ∀ other m, tree.NamesThrough text other m → other.length ≤ front.length := by
  rw [resolveAbsolute?_eq, Option.or_eq_some_iff] at found
  simp only [namesThrough_iff discrete dotless lookedUp]
  rcases found with found | ⟨noId, found⟩
  · refine ⟨text, .inl ⟨rfl, found⟩, ?_⟩
    rintro other m (⟨rfl, _⟩ | ⟨cut, isCut, rfl, _⟩)
    · exact Nat.le_refl _
    · rw [String.length_ofList, ← String.length_toList]
      exact Nat.le_of_lt (Path.length_lt_of_mem_cuts isCut)
  · obtain ⟨longer, cut, shorter, isSplit, leads, fails⟩ := List.findSome?_eq_some_iff.1 found
    have decreasing := Path.cuts_decreasing text.toList
    rw [isSplit] at decreasing ⊢
    refine ⟨_, .inr ⟨cut, List.mem_append_right _ (.head _), rfl, leads⟩, ?_⟩
    rintro other m (⟨_, isId⟩ | ⟨otherCut, isCut, rfl, otherLeads⟩)
    · rw [noId] at isId
      cases isId
    · rw [String.length_ofList, String.length_ofList]
      rcases List.mem_append.1 isCut with isLonger | notLonger
      · rw [fails _ isLonger] at otherLeads
        cases otherLeads
      · rcases List.mem_cons.1 notLonger with rfl | isShorter
        · exact Nat.le_refl _
        · have first := (List.pairwise_append.1 decreasing).2.1
          exact Nat.le_of_lt ((List.pairwise_cons.1 first).1 _ isShorter)

/-- Fronts of one text that are equally long lead to the same state. -/
theorem NamesThrough.unique (names : tree.NamesThrough text front n)
    (others : tree.NamesThrough text other m) (same : front.length = other.length) : n = m := by
  rcases (namesThrough_iff discrete dotless lookedUp).1 names with
      ⟨rfl, found⟩ | ⟨⟨front, back⟩, isCut, rfl, leads⟩ <;>
    rcases (namesThrough_iff discrete dotless lookedUp).1 others with
      ⟨rfl, otherFound⟩ | ⟨⟨otherFront, otherBack⟩, otherCut, rfl, otherLeads⟩
  · exact Option.some.inj (found.symm.trans otherFound)
  · have shorter := Path.length_lt_of_mem_cuts otherCut
    rw [String.length_toList, same, String.length_ofList] at shorter
    exact absurd shorter (Nat.lt_irrefl _)
  · have shorter := Path.length_lt_of_mem_cuts isCut
    rw [String.length_toList, ← same, String.length_ofList] at shorter
    exact absurd shorter (Nat.lt_irrefl _)
  · rw [String.length_ofList, String.length_ofList] at same
    obtain ⟨rfl, sameRest⟩ :=
      List.append_inj ((Path.mem_cuts.1 isCut).symm.trans (Path.mem_cuts.1 otherCut)) same
    obtain rfl : back = otherBack := List.tail_eq_of_cons_eq sameRest
    exact Option.some.inj (leads.symm.trans otherLeads)

/-- An absolute target names the state that is reached from its longest front that leads
anywhere. -/
theorem resolveAbsolute?_eq_some_iff : tree.resolveAbsolute? text.toList = some n ↔
    ∃ front, tree.NamesThrough text front n ∧
      ∀ other m, tree.NamesThrough text other m → other.length ≤ front.length := by
  refine ⟨exists_longest discrete dotless lookedUp, fun ⟨front, names, longest⟩ => ?_⟩
  cases found : tree.resolveAbsolute? text.toList with
  | none =>
      exact absurd names
        ((resolveAbsolute?_eq_none_iff discrete dotless lookedUp).1 found front n)
  | some m =>
      obtain ⟨other, others, otherLongest⟩ := exists_longest discrete dotless lookedUp found
      have same := Nat.le_antisymm (longest other m others) (otherLongest front n names)
      exact congrArg some (others.unique discrete dotless lookedUp names same)

end Absolute

end StateTree

namespace Layout

/-- The ids in a stretch: a state has its explicit id, or else one that its key completes, below an
outer state for the heads and below its parent for the others. -/
structure Titled (complete : String → String) (heads : List Nat) (start : Nat)
    (placed : List PlacedState) : Prop where
  headed : ∀ {n state}, n ∈ heads → At start placed n state →
    state.node.id = state.spec.id.getD (complete state.node.key)
  below : ∀ {p n parent state}, At start placed p parent → n ∈ parent.node.children →
    At start placed n state →
    state.node.id = state.spec.id.getD (parent.node.id ++ "." ++ state.node.key)

namespace Titled

variable {complete : String → String} {start : Nat} {outer : Option Nat}

theorem nil : Titled complete [] start [] where
  headed member := by cases member
  below stands := absurd stands not_at_nil

theorem append {firstHeads secondHeads : List Nat} {first second : List PlacedState}
    (linkedFirst : Interlinked outer firstHeads start first)
    (linkedSecond : Interlinked outer secondHeads (start + first.length) second)
    (left : Titled complete firstHeads start first)
    (right : Titled complete secondHeads (start + first.length) second) :
    Titled complete (firstHeads ++ secondHeads) start (first ++ second) where
  headed member stands := by
    rcases List.mem_append.1 member with member | member
    · exact left.headed member (linkedFirst.at_of_head partOf_append_left member stands)
    · exact right.headed member (linkedSecond.at_of_head partOf_append_right member stands)
  below above isChild stands := by
    rcases at_append.1 above with above | above
    · exact left.below above isChild
        (linkedFirst.at_of_child partOf_append_left above isChild stands)
    · exact right.below above isChild
        (linkedSecond.at_of_child partOf_append_right above isChild stands)

/-- A state in front of what lies below it. -/
theorem cons {state : PlacedState} {rest : List PlacedState}
    (isId : state.node.id = state.spec.id.getD (complete state.node.key))
    (linked : Interlinked (some start) state.node.children (start + 1) rest)
    (later : Titled (state.node.id ++ "." ++ ·) state.node.children (start + 1) rest) :
    Titled complete [start] start (state :: rest) where
  headed {n other} member stands := by
    obtain rfl := List.mem_singleton.1 member
    obtain rfl := stands.unique (at_cons.2 (.inl ⟨rfl, rfl⟩))
    exact isId
  below above isChild stands := by
    rcases at_cons.1 above with ⟨rfl, rfl⟩ | above
    · exact later.headed isChild (linked.at_of_head partOf_cons isChild stands)
    · exact later.below above isChild (linked.at_of_child partOf_cons above isChild stands)

end Titled

mutual
theorem block_titled (complete : String → String) (key : String) (parent : Option Nat)
    (depth start : Nat) :
    (spec : StateSpec) → Titled complete [start] start
      (block key (complete key) parent depth start spec)
  | ⟨explicit, _, _, _, _, _, _, states⟩ => by
      rw [block]
      refine Titled.cons rfl ?_ ?_
      · split
        · exact .nil
        · exact blocksOf_interlinked _ start depth (start + 1) states
      · split
        · exact .nil
        · exact blocksOf_titled _ start depth (start + 1) states

theorem blocksOf_titled (parentId : String) (parent depth start : Nat) :
    (states : List (String × StateSpec)) → Titled (parentId ++ "." ++ ·)
      (blockStarts start (blocksOf parentId parent depth start states)) start
      (blocksOf parentId parent depth start states).flatten
  | [] => by
      rw [blocksOf]
      exact .nil
  | child :: rest => by
      rw [blocksOf]
      split
      · exact .append
          (block_interlinked child.1 (parentId ++ "." ++ child.1) (some parent) (depth + 1) start
            child.2)
          (blocksOf_interlinked parentId parent depth _ rest)
          (block_titled (parentId ++ "." ++ ·) child.1 (some parent) (depth + 1) start child.2)
          (blocksOf_titled parentId parent depth _ rest)
      · exact blocksOf_titled parentId parent depth start rest
end

end Layout

namespace StateTree

open Layout

variable {machine : MachineSpec} {n c : Nat}

/-- Where no id is explicit, a child has the id of its parent with its key. -/
theorem id_of_child (shaped : machine.Shaped)
    (implicit : ∀ declared ∈ machine.listing, declared.spec.id = none)
    (isChild : c ∈ (ofMachine machine).children n) :
    ((ofMachine machine).node c).id =
      ((ofMachine machine).node n).id ++ "." ++ ((ofMachine machine).node c).key := by
  have bounds := (ofMachine machine).child_bounds isChild
  obtain ⟨declared, listed⟩ := exists_listed shaped bounds.2
  obtain ⟨state, stands, same⟩ := exists_placed shaped listed
  obtain ⟨parent, above⟩ := exists_at (Nat.lt_trans bounds.1 bounds.2)
  rw [children, node_of_at above] at isChild
  rw [node_of_at above, node_of_at stands]
  have isId := (block_titled (fun _ => machine.id) machine.id none 0 0 machine.root).below above
    isChild stands
  rwa [same.spec, implicit declared (List.mem_of_getElem? listed), Option.getD_none] at isId

end StateTree

namespace MachineSpec

open StateTree

variable {machine : MachineSpec} {definition : Definition} {source n m : Nat} {keys : List String}

/-- Where no id is explicit, an id is completed by the keys that lead on from its state. -/
theorem id_of_reaches (built : machine.build = .ok definition)
    (implicit : ∀ declared ∈ machine.listing, declared.spec.id = none)
    (reaches : definition.Reaches n keys m) :
    (definition.node m).id = ".".intercalate ((definition.node n).id :: keys) := by
  have shaped := shaped_of_build built
  obtain ⟨_, rfl⟩ := build_eq_ok_iff.1 built
  induction reaches with
  | here => rw [String.intercalate_singleton]
  | @down p c _ _ isChild _ ih =>
      have isId : (machine.resolved.node c).id =
          (machine.resolved.node p).id ++ "." ++ (machine.resolved.node c).key :=
        id_of_child shaped implicit isChild
      rw [ih, isId]
      simp

/-- Absolute targets name the state that is reached from the longest id, others the one that is
reached from the source or from the state around it. A state is named by its own id, and by nothing
else where no id is explicit. -/
theorem resolves_of_build (distinct : machine.root.Distinct)
    (built : machine.build = .ok definition) (inTree : source < definition.size) :
    (∀ text n, definition.resolve? source ("#" ++ text) = some n ↔
      ∃ front, definition.NamesThrough text front n ∧
        ∀ other m, definition.NamesThrough text other m → other.length ≤ front.length) ∧
    (∀ text, definition.resolve? source ("#" ++ text) = none ↔
      ∀ front n, ¬ definition.NamesThrough text front n) ∧
    (∀ text n, definition.resolve? source ("." ++ text) = some n ↔
      definition.Follows source text n) ∧
    (∀ text base, text.toList.head? ≠ some '#' → text.toList.head? ≠ some '.' →
      (definition.parent? source = some base ∨ source = StateTree.root ∧ base = source) →
      ∀ n, definition.resolve? source text = some n ↔ definition.Follows base text n) ∧
    (∀ n, n < definition.size →
      definition.resolve? source ("#" ++ (definition.node n).id) = some n) ∧
    ((∀ declared ∈ machine.listing, declared.spec.id = none) →
      ∀ text n, definition.resolve? source ("#" ++ text) = some n ↔
        n < definition.size ∧ text = (definition.node n).id) := by
  have tabulates := tabulates_of_build distinct built
  have discrete : definition.Discrete := tabulates.siblings
  have dotless : definition.Dotless := dotless_of_build built
  refine ⟨fun text n => ?_, fun text => ?_, fun text n => ?_,
    fun text base notAbsolute notBelow isBase n => ?_, fun n isState => ?_,
    fun implicit text n => ?_⟩
  · rw [resolve?_absolute]
    exact resolveAbsolute?_eq_some_iff discrete dotless tabulates.lookup
  · rw [resolve?_absolute]
    exact resolveAbsolute?_eq_none_iff discrete dotless tabulates.lookup
  · rw [resolve?_below]
    exact descend?_segments_eq_some_iff discrete dotless
  · have base_eq : (definition.parent? source).getD source = base := by
      rcases isBase with isParent | ⟨rfl, rfl⟩
      · rw [isParent, Option.getD_some]
      · rw [tabulates.orphan, Option.getD_none]
    rw [resolve?_relative notAbsolute notBelow, base_eq]
    exact descend?_segments_eq_some_iff discrete dotless
  · rw [resolve?_absolute, resolveAbsolute?_eq, tabulates.lookup.2 ⟨isState, rfl⟩, Option.some_or]
  · constructor
    · intro found
      have isState := resolve?_lt inTree found
      rw [resolve?_absolute] at found
      obtain ⟨front, ⟨base, keys, _, rfl, isText, reaches⟩, _⟩ :=
        exists_longest discrete dotless tabulates.lookup found
      exact ⟨isState, isText.symm.trans (id_of_reaches built implicit reaches).symm⟩
    · rintro ⟨isState, rfl⟩
      rw [resolve?_absolute, resolveAbsolute?_eq, tabulates.lookup.2 ⟨isState, rfl⟩,
        Option.some_or]

/-- A tower whose attic has an id that looks like the path of a lift on the ground floor. -/
def tower : MachineSpec :=
  (named "tower").startingIn "ground"
    |>.child "ground" (StateSpec.compound "lift"
      |>.child "lift" ((StateSpec.compound "door").withId "lift"
        |>.child "door" StateSpec.atomic))
    |>.child "attic" ((StateSpec.compound "door").withId "tower.ground.lift"
      |>.child "door" (StateSpec.atomic.withId "hatch"))

theorem tower_built : tower.build = .ok tower.resolved :=
  build_eq_ok_iff.2 ⟨by decide +kernel, rfl⟩

/-- A target that can be cut in two ways leads to the hatch of the attic, not to the door of the
lift; in the studio no id is explicit. -/
theorem targets_in_tower_and_studio :
    (tower.root.Distinct ∧ tower.build = .ok tower.resolved ∧
      StateTree.root < tower.resolved.size ∧
      tower.resolved.resolve? StateTree.root "#tower.ground.lift.door" = some 5 ∧
      (tower.resolved.node 5).id = "hatch" ∧
      ∃ front, tower.resolved.NamesThrough "tower.ground.lift.door" front 5 ∧
        ∀ other m, tower.resolved.NamesThrough "tower.ground.lift.door" other m →
          other.length ≤ front.length) ∧
    studio.root.Distinct ∧ studio.build = .ok studio.resolved ∧
      StateTree.root < studio.resolved.size ∧
      (∀ declared ∈ studio.listing, declared.spec.id = none) ∧
      ∀ text n, studio.resolved.resolve? StateTree.root ("#" ++ text) = some n ↔
        n < studio.resolved.size ∧ text = (studio.resolved.node n).id := by
  have towerDistinct : tower.root.Distinct := by decide +kernel
  have towerRoot : StateTree.root < tower.resolved.size := by decide +kernel
  have leads : tower.resolved.resolve? StateTree.root "#tower.ground.lift.door" = some 5 := by
    decide +kernel
  have studioDistinct : studio.root.Distinct := by decide +kernel
  have studioRoot : StateTree.root < studio.resolved.size := by decide +kernel
  have implicit : ∀ declared ∈ studio.listing, declared.spec.id = none := by decide +kernel
  obtain ⟨inTower, _⟩ := resolves_of_build towerDistinct tower_built towerRoot
  obtain ⟨_, _, _, _, _, inStudio⟩ := resolves_of_build studioDistinct studio_built studioRoot
  exact ⟨⟨towerDistinct, tower_built, towerRoot, leads, by decide +kernel,
    (inTower "tower.ground.lift.door" 5).1 leads⟩, studioDistinct, studio_built, studioRoot,
    implicit, inStudio implicit⟩

end MachineSpec

end Statechart
