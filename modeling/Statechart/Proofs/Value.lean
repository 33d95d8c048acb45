import Statechart.Proofs.Legality
import Statechart.Proofs.Siblings

/-!
# Values of configurations

A legal configuration is the configuration of its value, and an accepted value is the
value of the configuration that it describes, which is legal. Both follow the tree
downwards: what a value says of a state is what it says of the children that it chooses.
-/

namespace Statechart

namespace Keyed

variable {α : Type} {key : String} {value : α} {entries first second : List (String × α)}

theorem mem_insert_iff (isNew : key ∉ entries.map (·.1)) {entry : String × α} :
    entry ∈ insert key value entries ↔ entry = (key, value) ∨ entry ∈ entries := by
  induction entries with
  | nil => simp [insert]
  | cons head rest ih =>
      simp only [List.map_cons, List.mem_cons, not_or] at isNew
      simp only [insert]
      split
      · simp
      · rw [if_neg isNew.1, List.mem_cons, ih isNew.2, List.mem_cons, or_left_comm]

/-- Sorting loses no entry when the keys are distinct. -/
theorem mem_sort_iff (distinct : (entries.map (·.1)).Nodup) {entry : String × α} :
    entry ∈ sort entries ↔ entry ∈ entries := by
  refine ⟨mem_of_mem_sort, fun member => ?_⟩
  have kept : ∀ sorted : List (String × α), (∀ k ∈ entries.map (·.1), k ∉ sorted.map (·.1)) →
      entry ∈ sorted ∨ entry ∈ entries →
      entry ∈ entries.foldl (fun sorted entry => insert entry.1 entry.2 sorted) sorted := by
    clear member
    induction entries with
    | nil => exact fun _ _ member => member.resolve_right List.not_mem_nil
    | cons head rest ih =>
        intro sorted apart member
        obtain ⟨isNew, later⟩ := List.nodup_cons.1 distinct
        have headNew := apart head.1 (.head _)
        refine ih later (insert head.1 head.2 sorted) (fun k isKey isThere => ?_) ?_
        · obtain ⟨other, isOther, rfl⟩ := List.mem_map.1 isThere
          rcases (mem_insert_iff headNew).1 isOther with rfl | before
          · exact isNew isKey
          · exact apart _ (.tail _ isKey) (List.mem_map_of_mem before)
        · rw [mem_insert_iff headNew]
          rcases member with before | isThere
          · exact .inl (.inr before)
          · rcases List.mem_cons.1 isThere with rfl | later
            · exact .inl (.inl rfl)
            · exact .inr later
  exact kept [] (fun _ _ => List.not_mem_nil) (.inr member)

theorem lookup_of_mem (increasing : Increasing entries) (member : (key, value) ∈ entries) :
    entries.lookup key = some value := by
  induction entries with
  | nil => cases member
  | cons head rest ih =>
      obtain ⟨below, tail⟩ := List.pairwise_cons.1 increasing
      rcases List.mem_cons.1 member with rfl | later
      · simp
      · have different : key ≠ head.1 := fun same =>
          String.lt_irrefl _ (same ▸ below _ later)
        rw [List.lookup_cons, beq_false_of_ne different]
        exact ih tail later

theorem mem_of_lookup (found : entries.lookup key = some value) : (key, value) ∈ entries := by
  obtain ⟨before, after, split, _⟩ := List.lookup_eq_some_iff.1 found
  simp [split]

/-- Two lists in key order with the same entries are the same. -/
theorem Increasing.eq_of_mem_iff (left : Increasing first) (right : Increasing second)
    (same : ∀ entry, entry ∈ first ↔ entry ∈ second) : first = second := by
  have distinct : ∀ {list : List (String × α)}, Increasing list → list.Nodup := by
    intro list increasing
    refine List.Pairwise.imp ?_ increasing
    rintro entry other less rfl
    exact String.lt_irrefl _ less
  have perm := (List.perm_ext_iff_of_nodup (distinct left) (distinct right)).2 same
  exact perm.eq_of_pairwise (fun _ _ _ _ less greater => absurd less (String.lt_asymm greater))
    left right

end Keyed

theorem map_eq_ok_iff {ε α β : Type} {f : α → β} {outcome : Except ε α} {result : β} :
    outcome.map f = .ok result ↔ ∃ value, outcome = .ok value ∧ f value = result := by
  cases outcome <;> simp [Except.map]

theorem bind_eq_ok_iff {ε α β : Type} {f : α → Except ε β} {outcome : Except ε α} {result : β} :
    outcome >>= f = .ok result ↔ ∃ value, outcome = .ok value ∧ f value = .ok result := by
  cases outcome <;> simp [bind, Except.bind]

/-- A list is worked through without an error exactly if every item is. -/
theorem mapM_eq_ok_iff {ε α β : Type} {f : α → Except ε β} {g : α → β}
    (value : ∀ item result, f item = .ok result → result = g item) {list : List α}
    {results : List β} :
    list.mapM f = .ok results ↔ (∀ item ∈ list, f item = .ok (g item)) ∧ results = list.map g := by
  induction list generalizing results with
  | nil => simp [pure, Except.pure, eq_comm]
  | cons head rest ih =>
      rw [List.mapM_cons]
      simp only [bind_eq_ok_iff, ih, List.forall_mem_cons, List.map_cons]
      constructor
      · rintro ⟨result, first, others, ⟨each, rfl⟩, same⟩
        cases same
        obtain rfl := value _ _ first
        exact ⟨⟨first, each⟩, rfl⟩
      · rintro ⟨⟨first, each⟩, rfl⟩
        exact ⟨g head, first, _, ⟨each, rfl⟩, rfl⟩

namespace Configuration

open StateTree

variable {tree : StateTree} {active : Configuration} {n m c : Nat} {value inner : StateValue}
variable {states : List Nat}

theorem regionValue_of_leaf (isLeaf : tree.isLeaf n = true) :
    regionValue tree active n = .nested [] := by
  rw [isLeaf_eq] at isLeaf
  rw [regionValue]
  cases kind : tree.kind n <;> simp [kind, StateKind.isLeaf] at isLeaf ⊢

theorem regionValue_of_compound (isCompound : tree.kind n = .compound)
    (found : (tree.children n).find? active.contains = some c) :
    regionValue tree active n =
      if tree.isLeaf c then .leaf (tree.node c).key
      else .nested [((tree.node c).key, regionValue tree active c)] := by
  rw [regionValue, isCompound]
  simp only
  split
  · next missing => cases missing.symm.trans found
  · next child isFound =>
    obtain rfl := Option.some.inj (isFound.symm.trans found)
    rfl

theorem regionValue_of_parallel (isParallel : tree.kind n = .parallel) :
    regionValue tree active n =
      .nested (Keyed.sort ((tree.children n).map fun child =>
        ((tree.node child).key, regionValue tree active child))) := by
  rw [regionValue, isParallel]
  simp only [List.map_subtype, List.unattach_attach]

theorem statesBelow_leaf_iff (isLeaf : tree.isLeaf n = true) :
    statesBelow tree n value = .ok states ↔ value = .nested [] ∧ states = [] := by
  rw [isLeaf_eq] at isLeaf
  rw [statesBelow.eq_def]
  cases kind : tree.kind n with
  | compound => simp [kind, StateKind.isLeaf] at isLeaf
  | parallel => simp [kind, StateKind.isLeaf] at isLeaf
  | atomic | final =>
      cases value with
      | leaf key => simp
      | nested regions => cases regions <;> simp [eq_comm (b := states)]

theorem statesBelow_compound_leaf_iff (isCompound : tree.kind n = .compound) {key : String} :
    statesBelow tree n (.leaf key) = .ok states ↔
      ∃ c, tree.childByKey? n key = some c ∧ tree.isLeaf c = true ∧ states = [c] := by
  rw [statesBelow.eq_def]
  simp only [isCompound]
  cases found : tree.childByKey? n key with
  | none => simp
  | some c =>
      cases isLeaf : tree.isLeaf c with
      | true => simp [isLeaf, eq_comm (b := states)]
      | false => simp [isLeaf]

theorem statesBelow_compound_nested_iff (isCompound : tree.kind n = .compound) {key : String}
    {inner : StateValue} :
    statesBelow tree n (.nested [(key, inner)]) = .ok states ↔
      ∃ c below, tree.childByKey? n key = some c ∧ tree.isLeaf c = false ∧
        statesBelow tree c inner = .ok below ∧ states = c :: below := by
  rw [statesBelow.eq_def]
  simp only [isCompound]
  split
  · next missing => simp [missing]
  · next c found =>
    cases isLeaf : tree.isLeaf c with
    | true => simp [found, isLeaf]
    | false =>
        simp only [Bool.false_eq_true, if_false]
        rw [map_eq_ok_iff]
        constructor
        · rintro ⟨below, isBelow, rfl⟩
          exact ⟨c, below, found, isLeaf, isBelow, rfl⟩
        · rintro ⟨other, below, isOther, _, isBelow, rfl⟩
          obtain rfl := Option.some.inj (found.symm.trans isOther)
          exact ⟨below, isBelow, rfl⟩

/-- What a value says of a compound state: it chooses one child, a leaf by its key and a
composite child with what is active below it. -/
theorem statesBelow_compound_iff (isCompound : tree.kind n = .compound) :
    statesBelow tree n value = .ok states ↔
      ∃ c key, tree.childByKey? n key = some c ∧
        ((tree.isLeaf c = true ∧ value = .leaf key ∧ states = [c]) ∨
          (tree.isLeaf c = false ∧ ∃ inner below, value = .nested [(key, inner)] ∧
            statesBelow tree c inner = .ok below ∧ states = c :: below)) := by
  constructor
  · intro described
    cases value with
    | leaf key =>
        obtain ⟨c, found, isLeaf, rfl⟩ := (statesBelow_compound_leaf_iff isCompound).1 described
        exact ⟨c, key, found, .inl ⟨isLeaf, rfl, rfl⟩⟩
    | nested regions =>
        rcases regions with _ | ⟨⟨key, inner⟩, _ | ⟨second, rest⟩⟩
        · rw [statesBelow.eq_def] at described
          simp [isCompound] at described
        · obtain ⟨c, below, found, composite, isBelow, rfl⟩ :=
            (statesBelow_compound_nested_iff isCompound).1 described
          exact ⟨c, key, found, .inr ⟨composite, inner, below, rfl, isBelow, rfl⟩⟩
        · rw [statesBelow.eq_def] at described
          simp [isCompound] at described
  · rintro ⟨c, key, found, ⟨isLeaf, rfl, rfl⟩ | ⟨composite, inner, below, rfl, isBelow, rfl⟩⟩
    · exact (statesBelow_compound_leaf_iff isCompound).2 ⟨c, found, isLeaf, rfl⟩
    · exact (statesBelow_compound_nested_iff isCompound).2
        ⟨c, below, found, composite, isBelow, rfl⟩

/-- What the regions of a value say of what is below a child. -/
def regionBelow (tree : StateTree) (regions : List (String × StateValue)) (c : Nat) : List Nat :=
  ((regions.lookup (tree.node c).key).bind fun inner => (statesBelow tree c inner).toOption).getD []

/-- The regions of a value have one for a child, and it describes what is below. -/
def Covers (tree : StateTree) (regions : List (String × StateValue)) (c : Nat) : Prop :=
  ∃ inner, regions.lookup (tree.node c).key = some inner ∧
    statesBelow tree c inner = .ok (regionBelow tree regions c)

theorem region_eq_ok_iff {regions : List (String × StateValue)} {error : ValueError} :
    (match regions.lookup (tree.node c).key with
      | none => Except.error error
      | some inner => (statesBelow tree c inner).map (c :: ·)) = .ok states ↔
      Covers tree regions c ∧ states = c :: regionBelow tree regions c := by
  unfold Covers regionBelow
  cases regions.lookup (tree.node c).key with
  | none => simp
  | some inner =>
      cases described : statesBelow tree c inner with
      | error error => simp [described, Except.map]
      | ok below => simp [described, Except.map, Except.toOption, eq_comm]

/-- What a value says of a parallel state: its regions are those of all children. -/
theorem statesBelow_parallel_iff (isParallel : tree.kind n = .parallel) :
    statesBelow tree n value = .ok states ↔
      ∃ regions, value = .nested regions ∧
        (∀ region ∈ regions, ∃ c, tree.childByKey? n region.1 = some c) ∧
        (∀ c ∈ tree.children n, Covers tree regions c) ∧
        states = (tree.children n).flatMap fun c => c :: regionBelow tree regions c := by
  rw [statesBelow.eq_def]
  simp only [isParallel]
  cases value with
  | leaf key => simp
  | nested regions =>
      simp only
      have known : (regions.find? fun region => (tree.childByKey? n region.1).isNone) = none ↔
          ∀ region ∈ regions, ∃ c, tree.childByKey? n region.1 = some c := by
        simp [List.find?_eq_none, ← Option.ne_none_iff_exists']
      split
      · next region found =>
        simp only [reduceCtorEq, false_iff]
        rintro ⟨others, same, allKnown, _⟩
        cases same
        cases found.symm.trans (known.2 allKnown)
      · next noneUnknown =>
        simp only [List.mapM_subtype, List.unattach_attach]
        rw [bind_eq_ok_iff]
        constructor
        · rintro ⟨parts, described, flat⟩
          obtain ⟨each, rfl⟩ := (mapM_eq_ok_iff fun _ _ isOk =>
            (region_eq_ok_iff.1 isOk).2).1 described
          cases flat
          exact ⟨regions, rfl, known.1 noneUnknown,
            fun c isChild => (region_eq_ok_iff.1 (each c isChild)).1, List.flatMap_def.symm⟩
        · rintro ⟨_, same, _, each, rfl⟩
          cases same
          refine ⟨_, (mapM_eq_ok_iff fun _ _ isOk => (region_eq_ok_iff.1 isOk).2).2
            ⟨fun c isChild => region_eq_ok_iff.2 ⟨each c isChild, rfl⟩, rfl⟩, ?_⟩
          rw [List.flatMap_def]
          rfl

/-- The children that a value makes active below a state, with what it makes active below
each of them. -/
structure Choice (tree : StateTree) (n : Nat) (states chosen : List Nat)
    (below : Nat → List Nat) : Prop where
  children : ∀ {c}, c ∈ chosen → c ∈ tree.children n
  single : tree.kind n = .compound → ∃ c, chosen = [c]
  all : tree.kind n = .parallel → chosen = tree.children n
  described : ∀ {c}, c ∈ chosen → ∃ inner, statesBelow tree c inner = .ok (below c)
  mem_iff : ∀ {m}, m ∈ states ↔ ∃ c ∈ chosen, m = c ∨ m ∈ below c

/-- Of a parallel state a value chooses all children. -/
theorem choice_of_covers {regions : List (String × StateValue)}
    (isParallel : tree.kind n = .parallel) (covers : ∀ c ∈ tree.children n, Covers tree regions c) :
    Choice tree n ((tree.children n).flatMap fun c => c :: regionBelow tree regions c)
      (tree.children n) (regionBelow tree regions) where
  children := id
  single isCompound := by cases isParallel.symm.trans isCompound
  all _ := rfl
  described {c} isChild := by
    obtain ⟨inner, _, isBelow⟩ := covers c isChild
    exact ⟨inner, isBelow⟩
  mem_iff := by simp [List.mem_flatMap]

theorem exists_choice (described : statesBelow tree n value = .ok states) :
    ∃ chosen below, Choice tree n states chosen below := by
  cases kind : tree.kind n with
  | compound =>
      obtain ⟨c, key, found, ⟨isLeaf, rfl, rfl⟩ | ⟨_, inner, below, rfl, isBelow, rfl⟩⟩ :=
        (statesBelow_compound_iff kind).1 described
      · refine ⟨[c], fun _ => [], ⟨?_, fun _ => ⟨c, rfl⟩, fun parallel => ?_, ?_, by simp⟩⟩
        · intro other member
          exact List.mem_singleton.1 member ▸ tree.childByKey?_mem found
        · cases kind.symm.trans parallel
        · intro other member
          obtain rfl := List.mem_singleton.1 member
          exact ⟨.nested [], (statesBelow_leaf_iff isLeaf).2 ⟨rfl, rfl⟩⟩
      · refine ⟨[c], fun _ => below, ⟨?_, fun _ => ⟨c, rfl⟩, fun parallel => ?_, ?_, by simp⟩⟩
        · intro other member
          exact List.mem_singleton.1 member ▸ tree.childByKey?_mem found
        · cases kind.symm.trans parallel
        · intro other member
          obtain rfl := List.mem_singleton.1 member
          exact ⟨inner, isBelow⟩
  | parallel =>
      obtain ⟨regions, rfl, _, covers, rfl⟩ := (statesBelow_parallel_iff kind).1 described
      exact ⟨_, _, choice_of_covers kind covers⟩
  | atomic | final =>
      have isLeaf : tree.isLeaf n = true := by simp [isLeaf_eq, kind, StateKind.isLeaf]
      obtain ⟨_, rfl⟩ := (statesBelow_leaf_iff isLeaf).1 described
      refine ⟨[], fun _ => [], ⟨fun member => ?_, fun compound => ?_, fun parallel => ?_,
        fun member => ?_, by simp⟩⟩
      · cases member
      · cases kind.symm.trans compound
      · cases kind.symm.trans parallel
      · cases member

/-- What is active below a state is as legality has it. -/
structure LegalBelow (tree : StateTree) (n : Nat) (states : List Nat) : Prop where
  below : ∀ {m}, m ∈ states → tree.Below m n
  parent : ∀ {m p}, m ∈ states → tree.parent? m = some p → p = n ∨ p ∈ states
  compound : ∀ {m}, m = n ∨ m ∈ states → tree.kind m = .compound →
    ∃ c ∈ tree.children m, c ∈ states ∧ ∀ other ∈ tree.children m, other ∈ states → other = c
  parallel : ∀ {m}, m = n ∨ m ∈ states → tree.kind m = .parallel →
    ∀ c ∈ tree.children m, c ∈ states

theorem LegalBelow.within (legalBelow : LegalBelow tree n states) (member : m = n ∨ m ∈ states) :
    tree.Within m n := member.imp_right legalBelow.below

namespace Choice

variable {chosen : List Nat} {below : Nat → List Nat}
variable (linked : tree.Linked) (choice : Choice tree n states chosen below)
variable (each : ∀ c ∈ chosen, LegalBelow tree c (below c))

include linked choice each

/-- Within a chosen child there is only what was chosen for it. -/
theorem mem_of_within (isChosen : c ∈ chosen) (member : m ∈ states) (within : tree.Within m c) :
    m = c ∨ m ∈ below c := by
  obtain ⟨other, isOther, inOther⟩ := choice.mem_iff.1 member
  have isParent := linked.parent_iff.2 (choice.children isChosen)
  have isOtherParent := linked.parent_iff.2 (choice.children isOther)
  obtain rfl := sibling_unique isParent isOtherParent within
    ((each other isOther).within inOther)
  exact inOther

/-- Below a chosen child there is all that was chosen for it. -/
theorem mem_iff_of_below (isChosen : c ∈ chosen) (under : tree.Below m c) :
    m ∈ states ↔ m ∈ below c := by
  have different : m ≠ c := fun same => not_below_self (same ▸ under)
  constructor
  · intro member
    exact (choice.mem_of_within linked each isChosen member (.inr under)).resolve_left different
  · intro inside
    exact choice.mem_iff.2 ⟨c, isChosen, .inr inside⟩

theorem chosen_of_child (isChild : m ∈ tree.children n) (member : m ∈ states) : m ∈ chosen := by
  obtain ⟨c, isChosen, same | inside⟩ := choice.mem_iff.1 member
  · exact same ▸ isChosen
  · have isParent := linked.parent_iff.2 isChild
    have above := linked.child_below (choice.children isChosen)
    have loop := within_parent_of_below isParent ((each c isChosen).below inside)
    exact absurd (above.of_within loop) not_below_self

theorem legalBelow : LegalBelow tree n states where
  below member := by
    obtain ⟨c, isChosen, inside⟩ := choice.mem_iff.1 member
    exact ((each c isChosen).within inside).below (linked.child_below (choice.children isChosen))
  parent {m p} member isParent := by
    obtain ⟨c, isChosen, rfl | inside⟩ := choice.mem_iff.1 member
    · have alsoParent := linked.parent_iff.2 (choice.children isChosen)
      exact .inl (Option.some.inj (isParent.symm.trans alsoParent))
    · exact .inr (choice.mem_iff.2 ⟨c, isChosen, (each c isChosen).parent inside isParent⟩)
  compound {m} member isCompound := by
    rcases member with rfl | member
    · obtain ⟨c, rfl⟩ := choice.single isCompound
      refine ⟨c, choice.children (.head _), choice.mem_iff.2 ⟨c, .head _, .inl rfl⟩, ?_⟩
      intro other isChild isActive
      exact List.mem_singleton.1 (choice.chosen_of_child linked each isChild isActive)
    · obtain ⟨c, isChosen, inside⟩ := choice.mem_iff.1 member
      obtain ⟨d, isChild, dInside, unique⟩ := (each c isChosen).compound inside isCompound
      refine ⟨d, isChild, choice.mem_iff.2 ⟨c, isChosen, .inr dInside⟩, ?_⟩
      intro other isOther isActive
      have under := linked.child_below isOther
      have within := (each c isChosen).within inside
      rcases choice.mem_of_within linked each isChosen isActive (.inr (under.of_within within)) with
        rfl | otherInside
      · exact absurd (under.of_within within) not_below_self
      · exact unique other isOther otherInside
  parallel {m} member isParallel d isChild := by
    rcases member with rfl | member
    · exact choice.mem_iff.2 ⟨d, choice.all isParallel ▸ isChild, .inl rfl⟩
    · obtain ⟨c, isChosen, inside⟩ := choice.mem_iff.1 member
      exact choice.mem_iff.2
        ⟨c, isChosen, .inr ((each c isChosen).parallel inside isParallel d isChild)⟩

end Choice

/-- Whatever value is accepted, what it makes active is legal. -/
theorem legalBelow_of_described (linked : tree.Linked)
    (described : statesBelow tree n value = .ok states) : LegalBelow tree n states := by
  induction n using tree.induction_down generalizing value states with
  | step n ih =>
      obtain ⟨chosen, below, choice⟩ := exists_choice described
      apply choice.legalBelow linked
      intro c isChosen
      obtain ⟨inner, isBelow⟩ := choice.described isChosen
      exact ih c (choice.children isChosen) isBelow

theorem ofValue_eq_ok_iff :
    ofValue tree value = .ok active ↔
      (tree.isLeaf root = true ∧ value = .leaf (tree.node root).key ∧ active = .ofList [root]) ∨
      (tree.isLeaf root = false ∧ ∃ states, statesBelow tree root value = .ok states ∧
        active = .ofList (root :: states)) := by
  unfold ofValue
  cases isLeaf : tree.isLeaf root with
  | true =>
      by_cases same : value = .leaf (tree.node root).key
      · simp [same, eq_comm]
      · simp [same]
  | false =>
      simp only [Bool.false_eq_true, if_false, bind_eq_ok_iff, false_and, false_or, true_and]
      simp [pure, Except.pure, eq_comm]

theorem legal_of_ofValue (linked : tree.Linked) (isOk : ofValue tree value = .ok active) :
    Legal tree active := by
  have described : ∃ states, LegalBelow tree root states ∧
      ∀ m, m ∈ active ↔ m = root ∨ m ∈ states := by
    rcases ofValue_eq_ok_iff.1 isOk with ⟨isLeaf, _, rfl⟩ | ⟨_, states, described, rfl⟩
    · refine ⟨[], legalBelow_of_described linked ((statesBelow_leaf_iff isLeaf).2 ⟨rfl, rfl⟩),
        fun m => ?_⟩
      simp [StateSet.mem_ofList]
    · exact ⟨states, legalBelow_of_described linked described, fun m => by
        simp [StateSet.mem_ofList]⟩
  obtain ⟨states, legalBelow, mem_iff⟩ := described
  refine ⟨(mem_iff root).2 (.inl rfl), fun {m} member => ?_, fun {m p} member isParent => ?_,
    fun {m} member isCompound => ?_, fun {m} member isParallel c isChild => ?_⟩
  · rcases legalBelow.within ((mem_iff m).1 member) with rfl | below
    · exact tree.inhabited
    · obtain ⟨p, isParent, _⟩ := below_iff.1 below
      exact linked.lt_size_of_parent isParent
  · rcases (mem_iff m).1 member with rfl | inside
    · cases parent?_root.symm.trans isParent
    · exact (mem_iff p).2 (legalBelow.parent inside isParent)
  · obtain ⟨c, isChild, isActive, unique⟩ := legalBelow.compound ((mem_iff m).1 member) isCompound
    refine ⟨c, isChild, (mem_iff c).2 (.inr isActive), fun other isOther otherActive => ?_⟩
    refine unique other isOther (((mem_iff other).1 otherActive).resolve_left ?_)
    rintro rfl
    cases parent?_root.symm.trans (linked.parent_iff.2 isOther)
  · exact (mem_iff c).2 (.inr (legalBelow.parallel ((mem_iff m).1 member) isParallel c isChild))

end Configuration

end Statechart
