import Statechart.Proofs.Choice
import Statechart.Proofs.NodeTable
import Statechart.Proofs.Root

/-!
# One transition after the other

The transitions that an event takes are taken at once. Taken one after the other, in whatever
order, they lead to the same configuration: their scopes are disjoint, so what one of them does
the others leave as it is. A transition may find that the state it starts in has been exited
when its turn comes. Its domain is still active, and only that matters.
-/

namespace Statechart

namespace StateTree

variable {tree : StateTree} {source other target n : Nat}

theorem scope_congr
    (same : (tree.scope other target).domain = (tree.scope source target).domain) :
    tree.scope other target = tree.scope source target := by
  simp only [scope] at same ⊢
  rw [same]

/-- Every child of the domain of a transition could be where the transition starts. -/
theorem scope_of_child (below : tree.Below target (tree.scope source target).domain)
    (isChild : tree.parent? other = some (tree.scope source target).domain) :
    tree.scope other target = tree.scope source target := by
  apply scope_congr
  conv_lhs => rw [scope]
  rw [ancestors_of_parent isChild, List.find?_cons_of_pos (isBelow_iff.2 below)]
  rfl

end StateTree

namespace Definition

open StateTree

variable {definition : Definition} {active : Configuration} {t u : Transition} {n g : Nat}
variable {first second earlier transitions order : List Transition}

/-- What is left active by transitions that are taken one after the other. -/
def sequentially (definition : Definition) (active : Configuration) (order : List Transition) :
    Configuration :=
  order.foldl (fun current t => (definition.plan current [t]).configuration) active

theorem sequentially_concat : definition.sequentially active (earlier ++ [t]) =
    (definition.plan (definition.sequentially active earlier) [t]).configuration :=
  List.foldl_append

/-- Where a step leads depends on what it exits and on the ways to its targets. -/
theorem configuration_congr
    (exits : definition.exiting active first = definition.exiting active second)
    (paths : definition.pathStates first = definition.pathStates second) :
    (definition.plan active first).configuration =
      (definition.plan active second).configuration := by
  simp only [plan_configuration, entering, retained, exits, paths]

theorem configuration_of_perm (permuted : first.Perm second) :
    (definition.plan active first).configuration =
      (definition.plan active second).configuration := by
  apply configuration_congr
  · ext n
    simp only [mem_exiting, permuted.mem_iff]
  · ext n
    simp only [pathStates, StateSet.mem_ofList, List.mem_flatMap, permuted.mem_iff]

/-- Two transitions lead to one target, in one scope, or neither leads anywhere. -/
structure Alike (definition : Definition) (t u : Transition) : Prop where
  target : u.target = t.target
  scope : ∀ {g}, t.target = some g → definition.scope u.source g = definition.scope t.source g

theorem Alike.touches_iff (alike : definition.Alike t u) :
    definition.Touches u n ↔ definition.Touches t n := by
  unfold Touches
  rw [alike.target]
  apply exists_congr
  intro g
  apply and_congr_right
  intro isTarget
  rw [InScope, InScope, alike.scope isTarget]

theorem Alike.configuration_eq (alike : definition.Alike t u) :
    (definition.plan active [u]).configuration = (definition.plan active [t]).configuration := by
  have samePath : definition.entryPath u = definition.entryPath t := by
    unfold entryPath
    rw [alike.target]
    cases isTarget : t.target with
    | none => rfl
    | some g => simp only [alike.scope isTarget]
  apply configuration_congr
  · ext n
    simp only [mem_exiting, List.mem_singleton, exists_eq_left, alike.touches_iff]
  · simp only [pathStates, List.flatMap_cons, List.flatMap_nil, samePath]

theorem Compatible.of_subset (compatible : definition.Compatible active transitions)
    (subset : ∀ t ∈ earlier, t ∈ transitions) : definition.Compatible active earlier where
  linked := compatible.linked
  legal := compatible.legal
  source member := compatible.source (subset _ member)
  target member := compatible.target (subset _ member)
  apart first second := compatible.apart (subset _ first) (subset _ second)

theorem enclosed_singleton (linked : definition.toStateTree.Linked)
    (legal : Configuration.Legal definition.toStateTree active) (isActive : u.source ∈ active)
    (inTree : ∀ {g}, u.target = some g → g < definition.size) (avoidsRoot : u.target ≠ some root) :
    definition.Enclosed active [u] where
  linked := linked
  legal := legal
  source member := List.mem_singleton.1 member ▸ isActive
  target member := List.mem_singleton.1 member ▸ inTree
  apart first second _ _ _ := (List.mem_singleton.1 first).trans (List.mem_singleton.1 second).symm
  avoidsRoot member := List.mem_singleton.1 member ▸ avoidsRoot

namespace Enclosed

variable (enclosed : definition.Enclosed active transitions) (wellFormed : definition.WellFormed)

include enclosed

theorem of_subset (subset : ∀ t ∈ earlier, t ∈ transitions) :
    definition.Enclosed active earlier where
  toCompatible := enclosed.toCompatible.of_subset subset
  avoidsRoot member := enclosed.avoidsRoot (subset _ member)

include wellFormed

/-- After some of the transitions another one finds its domain active, and a child of it. -/
theorem exists_active_child (subset : ∀ t ∈ earlier, t ∈ transitions) (member : t ∈ transitions)
    (isTarget : t.target = some g) :
    ∃ source ∈ (definition.plan active earlier).configuration,
      definition.scope source g = definition.scope t.source g := by
  have earlierEnclosed := enclosed.of_subset subset
  have legal := earlierEnclosed.legal_plan wellFormed
  have below := enclosed.below_domain member isTarget
  obtain ⟨wasActive, untouched⟩ := mem_retained.1 (enclosed.domain_retained member isTarget)
  have isActive : (definition.scope t.source g).domain ∈
      (definition.plan active earlier).configuration := by
    apply (earlierEnclosed.mem_after_of_untouched _).2 wasActive
    exact fun u other => untouched u (subset u other)
  have sameScope : ∀ c ∈ definition.children (definition.scope t.source g).domain,
      definition.scope c g = definition.scope t.source g := by
    intro c isChild
    exact scope_of_child below (enclosed.linked.parent_iff.2 isChild)
  rcases enclosed.linked.kind_of_below below with isCompound | isParallel
  · obtain ⟨c, isChild, childActive, _⟩ := legal.compound isActive isCompound
    exact ⟨c, childActive, sameScope c isChild⟩
  · obtain ⟨c, isChild⟩ := List.exists_mem_of_ne_nil _ (wellFormed.regions isParallel)
    exact ⟨c, legal.parallel isActive isParallel c isChild, sameScope c isChild⟩

/-- After some of the transitions another one does what one does that starts in a state which
is active then. -/
theorem exists_alike (subset : ∀ t ∈ earlier, t ∈ transitions) (member : t ∈ transitions) :
    ∃ u, definition.Alike t u ∧
      definition.Enclosed (definition.plan active earlier).configuration [u] := by
  have legal := (enclosed.of_subset subset).legal_plan wellFormed
  have startingIn : ∀ source ∈ (definition.plan active earlier).configuration,
      definition.Enclosed (definition.plan active earlier).configuration
        [{ t with source }] := by
    intro source isActive
    have inTree : ∀ {g}, t.target = some g → g < definition.size := enclosed.target member
    have avoidsRoot : t.target ≠ some root := enclosed.avoidsRoot member
    exact enclosed_singleton enclosed.linked legal isActive inTree avoidsRoot
  cases isTarget : t.target with
  | none =>
      refine ⟨{ t with source := root }, ⟨rfl, ?_⟩, startingIn root legal.root⟩
      intro g leads
      rw [isTarget] at leads
      cases leads
  | some g =>
      obtain ⟨source, isActive, same⟩ :=
        enclosed.exists_active_child wellFormed subset member isTarget
      refine ⟨{ t with source }, ⟨rfl, ?_⟩, startingIn source isActive⟩
      intro h leads
      obtain rfl := Option.some.inj (isTarget.symm.trans leads)
      exact same

end Enclosed

/-- What one more transition makes of the outcome of others is the outcome of all. -/
theorem Enclosed.outcome_concat (enclosed : definition.Enclosed active (earlier ++ [t]))
    (isNew : t ∉ earlier) (alike : definition.Alike t u) {current after : Configuration}
    (outcome : definition.Outcome active earlier current)
    (further : definition.Outcome current [u] after) :
    definition.Outcome active (earlier ++ [t]) after := by
  have isThere : ∀ {v}, v ∈ earlier → v ∈ earlier ++ [t] := List.mem_append_left _
  have isLast : t ∈ earlier ++ [t] := List.mem_append_right _ (List.mem_singleton_self t)
  have unchanged : ∀ {n}, ¬ definition.Touches t n → (n ∈ after ↔ n ∈ current) := by
    intro n untouched
    apply further.outside
    intro v member
    rw [List.mem_singleton.1 member, alike.touches_iff]
    exact untouched
  have elsewhere : ∀ {v n}, v ∈ earlier → definition.Touches v n → ¬ definition.Touches t n := by
    rintro v n member touches alsoTouches
    obtain rfl := enclosed.scopes_disjoint (isThere member) isLast touches alsoTouches
    exact isNew member
  refine ⟨further.legal, fun {v g} member isTarget => ?_, fun {n} untouched => ?_,
    fun {v g n} member isTarget isActive isCompound inside notAbove => ?_⟩
  · rcases List.mem_append.1 member with before | last
    · have inScope := inScope_target (enclosed.below_domain member isTarget)
      exact (unchanged (elsewhere before ⟨g, isTarget, inScope⟩)).2
        (outcome.targets before isTarget)
    · obtain rfl := List.mem_singleton.1 last
      exact further.targets (.head _) (alike.target.trans isTarget)
  · rw [unchanged (untouched t isLast)]
    exact outcome.outside fun v member => untouched v (isThere member)
  · rcases List.mem_append.1 member with before | last
    · have touches : definition.Touches v n := ⟨g, isTarget, inside⟩
      have wasActive := (unchanged (elsewhere before touches)).1 isActive
      obtain ⟨c, isInitial, childActive⟩ :=
        outcome.initial before isTarget wasActive isCompound inside notAbove
      have under : definition.Below c n :=
        enclosed.linked.child_below (definition.initial_mem_children isInitial)
      have childTouched := enclosed.touches_downward member touches under
      exact ⟨c, isInitial, (unchanged (elsewhere before childTouched)).2 childActive⟩
    · obtain rfl := List.mem_singleton.1 last
      have stillInside : definition.InScope u.source g n := by
        rw [InScope, alike.scope isTarget]
        exact inside
      exact further.initial (.head _) (alike.target.trans isTarget) isActive isCompound
        stillInside notAbove

/-- One more transition leads where all of them lead at once. -/
theorem Compatible.plan_concat (compatible : definition.Compatible active (earlier ++ [t]))
    (wellFormed : definition.WellFormed) (isNew : t ∉ earlier) :
    (definition.plan (definition.plan active earlier).configuration [t]).configuration =
      (definition.plan active (earlier ++ [t])).configuration := by
  have subset : ∀ u ∈ earlier, u ∈ earlier ++ [t] := fun u => List.mem_append_left _
  have isLast : t ∈ earlier ++ [t] := List.mem_append_right _ (List.mem_singleton_self t)
  by_cases avoidsRoot : ∃ u ∈ earlier ++ [t], u.target = some root
  · obtain ⟨u, member, isTarget⟩ := avoidsRoot
    have onlyRoot : ∀ v ∈ earlier ++ [t], ∀ g, v.target = some g → g = root :=
      fun v other g isOther => compatible.target_eq_root member isTarget other isOther
    ext n
    rw [mem_after_iff_of_onlyRoot onlyRoot, List.forall_mem_append, ← and_assoc,
      ← mem_after_iff_of_onlyRoot fun v other => onlyRoot v (subset v other),
      mem_after_iff_of_onlyRoot (List.forall_mem_singleton.2 (onlyRoot t isLast))]
  · have enclosed : definition.Enclosed active (earlier ++ [t]) :=
      ⟨compatible, fun member isTarget => avoidsRoot ⟨_, member, isTarget⟩⟩
    obtain ⟨u, alike, alone⟩ := enclosed.exists_alike wellFormed subset isLast
    rw [← alike.configuration_eq]
    have outcome := (enclosed.of_subset subset).outcome_plan wellFormed
    have further := alone.outcome_plan wellFormed
    exact enclosed.outcome_unique wellFormed (enclosed.outcome_concat isNew alike outcome further)

/-- Compatible transitions lead to the same configuration one after the other as at once. -/
theorem Compatible.sequentially_eq (compatible : definition.Compatible active order)
    (wellFormed : definition.WellFormed) (distinct : order.Nodup) :
    definition.sequentially active order = (definition.plan active order).configuration := by
  induction order using List.reverseRecOn with
  | nil =>
      ext n
      rw [mem_after_iff_of_onlyRoot (by simp)]
      simp [sequentially]
  | append_singleton earlier last ih =>
      obtain ⟨earlierDistinct, _, apart⟩ := List.nodup_append.1 distinct
      have isNew : last ∉ earlier := fun isThere => apart last isThere last (.head _) rfl
      have before := ih (compatible.of_subset fun _ => List.mem_append_left _) earlierDistinct
      rw [sequentially_concat, before]
      exact compatible.plan_concat wellFormed isNew

/-- The transitions that an event takes in a legal configuration lead to the same configuration
one after the other, in whatever order, as they do at once. -/
theorem sequentially_select_eq {machine : MachineSpec} (built : machine.build = .ok definition)
    {guards : String → Option Guard} {context : Context} {event : String}
    (legal : Configuration.isLegal definition.toStateTree active = true)
    (permuted : order.Perm (definition.select guards active context event)) :
    definition.sequentially active order =
      (definition.plan active (definition.select guards active context event)).configuration := by
  have wellFormed := MachineSpec.wellFormed_of_build built
  have isLegal := (Configuration.isLegal_iff wellFormed.linked).1 legal
  have compatible : definition.Compatible active order :=
    (wellFormed.compatible_select isLegal).of_subset fun t => permuted.mem_iff.1
  have distinct : order.Nodup := permuted.nodup_iff.2 nodup_select
  calc definition.sequentially active order
      = (definition.plan active order).configuration :=
        compatible.sequentially_eq wellFormed distinct
    _ = _ := configuration_of_perm permuted

end Definition

namespace MachineSpec

/-- When the singers swap, the alto's transition exits the state where the tenor's starts, and the
tenor's the state where the alto's does. The tenor's may come first all the same. -/
theorem duet_swaps_in_turn :
    duet.resolved.sequentially altoLeads [cueAlto, cueTenor] =
      (duet.resolved.plan altoLeads
        (duet.resolved.select (fun _ => none) altoLeads .empty "swap")).configuration := by
  apply Definition.sequentially_select_eq duet_built (by decide +kernel)
  rw [duet_swaps]
  exact .swap _ _ _

end MachineSpec

end Statechart
