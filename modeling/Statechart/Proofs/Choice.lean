import Statechart.Proofs.Handlers
import Mathlib.Data.Nat.Find

/-!
# What the leaves choose

Every active leaf chooses, of the nearest state at or above it that handles the event, the
first candidate that no guard holds back. What is chosen stands in the order of the leaves
that were the first to choose it. Weighing the chosen transitions against each other leaves
out some of them, so that no two that are taken exit a state in common, and keeps the order.
-/

namespace Statechart

namespace StateTree

variable {tree : StateTree} {n a : Nat}

/-- On the way from a state to the root every state lies below those that come after it. -/
theorem pairwise_path (tree : StateTree) (n : Nat) :
    (n :: tree.ancestors n).Pairwise tree.Below := by
  induction n using Nat.strongRecOn with
  | ind n ih =>
      apply List.Pairwise.cons
      · intro a above
        exact above
      · cases isParent : tree.parent? n with
        | none => simp [ancestors_of_orphan isParent]
        | some p =>
            rw [ancestors_of_parent isParent]
            exact ih p (tree.parent_lt isParent)

theorem mem_path_iff : a ∈ n :: tree.ancestors n ↔ tree.Within n a :=
  List.mem_cons.trans (or_congr_left eq_comm)

end StateTree

theorem Configuration.increasing_leaves (tree : StateTree) (active : Configuration) :
    (leaves tree active).Pairwise (· < ·) := active.increasing.filter _

namespace Definition

open StateTree

section

variable (definition : Definition) (guards : String → Option Guard)
variable (context : Context) (event : String)

/-- No guard holds a candidate back. -/
def Passes (candidate : Transition) : Prop :=
  candidate.guard = none ∨
    ∃ name guard, candidate.guard = some name ∧ guards name = some guard ∧
      guard context event = true

/-- A leaf chooses a transition: it is declared by the nearest state at or above the leaf that
handles the event, and of the candidates there it is the first that no guard holds back. -/
def Chooses (leaf : Nat) (t : Transition) : Prop :=
  ∃ n before after, definition.Within leaf n ∧
    definition.candidates? n event = some (before ++ t :: after) ∧
    Passes guards context event t ∧ (∀ earlier ∈ before, ¬ Passes guards context event earlier) ∧
    ∀ m, definition.Within leaf m → definition.Below m n →
      ¬ definition.Handles guards context event m

/-- Of some leaves one is the first, in document order, to choose a transition. -/
structure FirstChooser (leaves : List Nat) (t : Transition) (leaf : Nat) : Prop where
  member : leaf ∈ leaves
  chooses : definition.Chooses guards context event leaf t
  first : ∀ other ∈ leaves, definition.Chooses guards context event other t → leaf ≤ other

/-- The first leaf to choose the one transition stands before the first to choose the other. -/
def ChosenBefore (leaves : List Nat) (t u : Transition) : Prop :=
  ∃ leaf later, definition.FirstChooser guards context event leaves t leaf ∧
    definition.FirstChooser guards context event leaves u later ∧ leaf < later

/-- What some leaves choose, one after the other. -/
def chosen (leaves : List Nat) : List Transition :=
  leaves.foldl (fun chosen leaf =>
    match definition.chosenBy? guards context event leaf with
    | some transition => if transition ∈ chosen then chosen else chosen ++ [transition]
    | none => chosen) []

end

variable {definition : Definition} {guards : String → Option Guard} {active : Configuration}
variable {context : Context} {event : String} {n leaf last : Nat} {t u : Transition}
variable {transitions : List Transition} {leaves : List Nat}

theorem candidateOf?_eq_some_iff :
    definition.candidateOf? guards context event n = some t ↔
      ∃ before after, definition.candidates? n event = some (before ++ t :: after) ∧
        Passes guards context event t ∧
        ∀ earlier ∈ before, ¬ Passes guards context event earlier := by
  rw [candidateOf?, List.find?_eq_some_iff_append]
  cases definition.candidates? n event with
  | none => simp
  | some candidates =>
      simp only [Option.getD_some, Option.some.injEq, Bool.not_eq_true', ← Bool.not_eq_true,
        passes_iff]
      constructor
      · rintro ⟨passes, before, after, split, held⟩
        exact ⟨before, after, split, passes, held⟩
      · rintro ⟨before, after, split, passes, held⟩
        exact ⟨passes, before, after, split, held⟩

/-- A leaf looks upwards, and what it finds first is what it chooses. -/
theorem chosenBy?_eq_some_iff :
    definition.chosenBy? guards context event leaf = some t ↔
      definition.Chooses guards context event leaf t := by
  have ordered := pairwise_path definition.toStateTree leaf
  rw [chosenBy?, List.findSome?_eq_some_iff]
  constructor
  · rintro ⟨nearer, n, further, path, found, nothing⟩
    rw [path] at ordered
    obtain ⟨_, beyond, _⟩ := List.pairwise_append.1 ordered
    obtain ⟨before, after, split, passes, held⟩ := candidateOf?_eq_some_iff.1 found
    have onPath : n ∈ leaf :: definition.ancestors leaf := by simp [path]
    refine ⟨n, before, after, mem_path_iff.1 onPath, split, passes, held, ?_⟩
    intro m within below
    have isThere : m ∈ nearer ++ n :: further := path ▸ mem_path_iff.2 within
    -- a state that lies below the one found comes before it on the way
    have isNearer : m ∈ nearer := by
      rcases List.mem_append.1 isThere with isNearer | isFurther
      · exact isNearer
      · rcases List.mem_cons.1 isFurther with rfl | isFurther
        · exact absurd below not_below_self
        · have above : definition.Below n m := List.rel_of_pairwise_cons beyond isFurther
          exact absurd (below.trans above) not_below_self
    rw [← candidateOf?_ne_none_iff, not_not]
    exact nothing m isNearer
  · rintro ⟨n, before, after, within, split, passes, held, nearest⟩
    obtain ⟨nearer, further, path⟩ := List.append_of_mem (mem_path_iff.2 within)
    rw [path] at ordered
    have found : definition.candidateOf? guards context event n = some t :=
      candidateOf?_eq_some_iff.2 ⟨before, after, split, passes, held⟩
    refine ⟨nearer, n, further, path, found, ?_⟩
    intro m isNearer
    have onPath : m ∈ leaf :: definition.ancestors leaf := by simp [path, isNearer]
    have below : definition.Below m n :=
      (List.pairwise_append.1 ordered).2.2 m isNearer n (.head _)
    have unhandled := nearest m (mem_path_iff.1 onPath) below
    rwa [← candidateOf?_ne_none_iff, not_not] at unhandled

/-- A leaf after all others is the first to choose nothing that one of them chooses. -/
theorem FirstChooser.concat (first : definition.FirstChooser guards context event leaves t leaf)
    (later : ∀ other ∈ leaves, other < last) :
    definition.FirstChooser guards context event (leaves ++ [last]) t leaf where
  member := List.mem_append_left _ first.member
  chooses := first.chooses
  first other member chooses := by
    rcases List.mem_append.1 member with before | isLast
    · exact first.first other before chooses
    · rw [List.mem_singleton.1 isLast]
      exact Nat.le_of_lt (later leaf first.member)

theorem FirstChooser.unique {other : Nat}
    (first : definition.FirstChooser guards context event leaves t leaf)
    (second : definition.FirstChooser guards context event leaves t other) : leaf = other :=
  Nat.le_antisymm (first.first other second.member second.chooses)
    (second.first leaf first.member first.chooses)

theorem ChosenBefore.irrefl : ¬ definition.ChosenBefore guards context event leaves t t := by
  rintro ⟨leaf, later, first, second, before⟩
  rw [first.unique second] at before
  exact Nat.lt_irrefl _ before

/-- A leaf after the others brings in what it chooses, unless one of them has chosen it. -/
theorem chosen_concat (definition : Definition) (guards : String → Option Guard)
    (context : Context) (event : String) (leaves : List Nat) (last : Nat) :
    (definition.chosen guards context event (leaves ++ [last]) =
        definition.chosen guards context event leaves ∧
      ∀ t, definition.Chooses guards context event last t →
        t ∈ definition.chosen guards context event leaves) ∨
    ∃ t, definition.Chooses guards context event last t ∧
      t ∉ definition.chosen guards context event leaves ∧
      definition.chosen guards context event (leaves ++ [last]) =
        definition.chosen guards context event leaves ++ [t] := by
  simp only [← chosenBy?_eq_some_iff]
  have split : definition.chosen guards context event (leaves ++ [last]) = _ :=
    List.foldl_append
  rw [split, List.foldl_cons, List.foldl_nil]
  cases definition.chosenBy? guards context event last with
  | none => exact .inl ⟨rfl, by simp⟩
  | some t =>
      by_cases before : t ∈ definition.chosen guards context event leaves
      · left
        refine ⟨if_pos before, ?_⟩
        rintro u same
        exact Option.some.inj same ▸ before
      · exact .inr ⟨t, rfl, before, if_neg before⟩

theorem mem_chosen_iff :
    t ∈ definition.chosen guards context event leaves ↔
      ∃ leaf ∈ leaves, definition.Chooses guards context event leaf t := by
  induction leaves using List.reverseRecOn with
  | nil => simp [chosen]
  | append_singleton earlier last ih =>
      have split : (∃ leaf ∈ earlier ++ [last], definition.Chooses guards context event leaf t) ↔
          t ∈ definition.chosen guards context event earlier ∨
            definition.Chooses guards context event last t := by
        rw [ih]
        simp [or_and_right, exists_or]
      rw [split]
      rcases definition.chosen_concat guards context event earlier last with
        ⟨same, before⟩ | ⟨u, chooses, _, grown⟩
      · rw [same]
        exact ⟨.inl, fun either => either.elim id (before t)⟩
      · have only : definition.Chooses guards context event last t ↔ t = u := by
          constructor
          · intro alsoChooses
            have isChosen := chosenBy?_eq_some_iff.2 chooses
            exact Option.some.inj ((chosenBy?_eq_some_iff.2 alsoChooses).symm.trans isChosen)
          · rintro rfl
            exact chooses
        rw [grown, List.mem_append, List.mem_singleton, only]

theorem exists_firstChooser (isChosen : t ∈ definition.chosen guards context event leaves) :
    ∃ leaf, definition.FirstChooser guards context event leaves t leaf := by
  classical
  have choosers : ∃ leaf, leaf ∈ leaves ∧ definition.Chooses guards context event leaf t :=
    mem_chosen_iff.1 isChosen
  obtain ⟨member, chooses⟩ := Nat.find_spec choosers
  refine ⟨Nat.find choosers, member, chooses, ?_⟩
  intro other isOther alsoChooses
  exact Nat.find_min' choosers ⟨isOther, alsoChooses⟩

/-- What leaves choose stands in the order of those that were the first to choose it. -/
theorem pairwise_chosen (increasing : leaves.Pairwise (· < ·)) :
    (definition.chosen guards context event leaves).Pairwise
      (definition.ChosenBefore guards context event leaves) := by
  induction leaves using List.reverseRecOn with
  | nil => exact .nil
  | append_singleton earlier last ih =>
      obtain ⟨ordered, _, before⟩ := List.pairwise_append.1 increasing
      have later : ∀ other ∈ earlier, other < last := by
        intro other member
        exact before other member last (List.mem_singleton_self last)
      have still : (definition.chosen guards context event earlier).Pairwise
          (definition.ChosenBefore guards context event (earlier ++ [last])) := by
        apply (ih ordered).imp
        rintro t u ⟨leaf, other, first, second, less⟩
        exact ⟨leaf, other, first.concat later, second.concat later, less⟩
      rcases definition.chosen_concat guards context event earlier last with
        ⟨same, _⟩ | ⟨u, chooses, isNew, grown⟩
      · rw [same]
        exact still
      · rw [grown]
        apply List.pairwise_append.2
        refine ⟨still, List.pairwise_singleton _ u, ?_⟩
        intro t isBefore v isLast
        obtain rfl := List.mem_singleton.1 isLast
        obtain ⟨leaf, first⟩ := exists_firstChooser isBefore
        have second : definition.FirstChooser guards context event (earlier ++ [last]) v last := by
          refine ⟨List.mem_append_right _ (List.mem_singleton_self last), chooses, ?_⟩
          intro other member alsoChooses
          rcases List.mem_append.1 member with isEarlier | isLast
          · exact absurd (mem_chosen_iff.2 ⟨other, isEarlier, alsoChooses⟩) isNew
          · exact Nat.le_of_eq (List.mem_singleton.1 isLast).symm
        exact ⟨leaf, last, first.concat later, second, later leaf first.member⟩

/-- Weighing transitions against each other leaves some out and keeps the others in order. -/
theorem sublist_removeConflicts :
    (definition.removeConflicts active transitions).Sublist transitions := by
  induction transitions using List.reverseRecOn with
  | nil => exact .slnil
  | append_singleton earlier last ih =>
      rw [removeConflicts, List.foldl_append, ← removeConflicts, List.foldl_cons, List.foldl_nil]
      rcases definition.consider_eq_or active (definition.removeConflicts active earlier) last with
        same | displaced
      · rw [same]
        exact ih.trans (List.sublist_append_left _ _)
      · rw [displaced]
        exact (List.filter_sublist.trans ih).append (.refl _)

theorem sublist_select : (definition.select guards active context event).Sublist
    (definition.enabled guards active context event) := sublist_removeConflicts

theorem pairwise_enabled :
    (definition.enabled guards active context event).Pairwise
      (definition.ChosenBefore guards context event
        (Configuration.leaves definition.toStateTree active)) :=
  pairwise_chosen (Configuration.increasing_leaves _ active)

theorem nodup_enabled : (definition.enabled guards active context event).Nodup := by
  apply pairwise_enabled.imp
  rintro t u before rfl
  exact before.irrefl

/-- What an event takes stands in the order of the leaves that were the first to choose it. -/
theorem pairwise_select :
    (definition.select guards active context event).Pairwise
      (definition.ChosenBefore guards context event
        (Configuration.leaves definition.toStateTree active)) :=
  pairwise_enabled.sublist sublist_select

theorem nodup_select : (definition.select guards active context event).Nodup :=
  nodup_enabled.sublist sublist_select

theorem exists_chooser_of_select (selected : t ∈ definition.select guards active context event) :
    ∃ leaf ∈ Configuration.leaves definition.toStateTree active,
      definition.Chooses guards context event leaf t :=
  mem_chosen_iff.1 (sublist_select.subset selected)

theorem Apart.disjoint (apart : definition.Apart active t u) :
    ∀ n ∈ definition.exitSet active t, n ∉ definition.exitSet active u := by
  rw [Apart, conflicts, Bool.not_eq_false'] at apart
  exact StateSet.isDisjoint_iff.1 apart

/-- An event takes no transition only if no leaf chooses one. -/
theorem select_eq_nil_iff : definition.select guards active context event = [] ↔
    ∀ leaf ∈ Configuration.leaves definition.toStateTree active, ∀ t,
      ¬ definition.Chooses guards context event leaf t := by
  rw [select, removeConflicts_eq_nil_iff, enabled_eq_nil_iff]
  simp only [← chosenBy?_eq_some_iff, Option.eq_none_iff_forall_ne_some]

/-- Of the transitions that an event takes no two exit a state in common. Each is what some
active leaf chooses, none occurs twice, and they stand in document order of the leaves that were
the first to choose them. There are none only if no leaf chooses any. -/
theorem taken_apart_in_order (definition : Definition) (guards : String → Option Guard)
    (active : Configuration) (context : Context) (event : String) :
    (definition.select guards active context event).Pairwise
        (fun t u => ∀ n ∈ definition.exitSet active t, n ∉ definition.exitSet active u) ∧
      (∀ t ∈ definition.select guards active context event,
        ∃ leaf ∈ Configuration.leaves definition.toStateTree active,
          definition.Chooses guards context event leaf t) ∧
      (definition.select guards active context event).Nodup ∧
      (definition.select guards active context event).Pairwise
        (definition.ChosenBefore guards context event
          (Configuration.leaves definition.toStateTree active)) ∧
      (definition.select guards active context event = [] ↔
        ∀ leaf ∈ Configuration.leaves definition.toStateTree active, ∀ t,
          ¬ definition.Chooses guards context event leaf t) := by
  refine ⟨?_, fun t => exists_chooser_of_select, nodup_select, pairwise_select, select_eq_nil_iff⟩
  exact removeConflicts_spec.1.imp fun apart => apart.disjoint

end Definition

namespace MachineSpec

/-- A duet in which the one who leads has the other take over, and the one who rests has the other
rest. -/
def duet : MachineSpec :=
  (named "duet").parallel
    |>.child "alto" (StateSpec.compound "leads"
      |>.child "leads" (StateSpec.atomic.candidate "swap" (.leadingTo "#duet.tenor.leads"))
      |>.child "rests" StateSpec.atomic)
    |>.child "tenor" (StateSpec.compound "rests"
      |>.child "leads" StateSpec.atomic
      |>.child "rests" (StateSpec.atomic.candidate "swap" (.leadingTo "#duet.alto.rests")))

theorem duet_built : duet.build = .ok duet.resolved :=
  build_eq_ok_iff.2 ⟨by decide +kernel, rfl⟩

/-- The duet while the alto leads. -/
def altoLeads : Configuration := .ofList [0, 1, 2, 4, 6]

/-- What the alto does to swap: the tenor is to lead. -/
def cueTenor : Transition := ⟨"swap", 2, some 5, none, []⟩

/-- What the tenor does to swap: the alto is to rest. -/
def cueAlto : Transition := ⟨"swap", 6, some 3, none, []⟩

theorem duet_swaps :
    duet.resolved.select (fun _ => none) altoLeads .empty "swap" = [cueTenor, cueAlto] := by
  decide +kernel

/-- The alto's transition exits the state of the tenor, and the tenor's that of the alto. -/
theorem duet_swaps_apart :
    cueTenor ∈ duet.resolved.select (fun _ => none) altoLeads .empty "swap" ∧
      (∃ leaf ∈ Configuration.leaves duet.resolved.toStateTree altoLeads,
        duet.resolved.Chooses (fun _ => none) .empty "swap" leaf cueTenor) ∧
      (∀ n ∈ duet.resolved.exitSet altoLeads cueTenor,
        n ∉ duet.resolved.exitSet altoLeads cueAlto) ∧
      duet.resolved.ChosenBefore (fun _ => none) .empty "swap"
        (Configuration.leaves duet.resolved.toStateTree altoLeads) cueTenor cueAlto := by
  obtain ⟨apart, chosen, _, ordered, _⟩ :=
    Definition.taken_apart_in_order duet.resolved (fun _ => none) altoLeads .empty "swap"
  rw [duet_swaps] at apart chosen ordered ⊢
  exact ⟨.head _, chosen _ (.head _), List.rel_of_pairwise_cons apart (.head _),
    List.rel_of_pairwise_cons ordered (.head _)⟩

end MachineSpec

end Statechart
