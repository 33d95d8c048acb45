import Statechart.Proofs.Choice
import Statechart.Proofs.DocumentOrder
import Statechart.Proofs.Outcome
import Statechart.Proofs.Root

/-!
# Transitions that give way

A transition that is chosen is not taken if one chosen before stands against it, or if it gives
way to one that starts strictly inside it. The one that stands against others is taken in the
end. The one that others have given way to may give way in its turn, and what has given way to
it does not come back. So a transition that is not taken exits a state in common with one that
is taken, unless a chain of transitions, each starting strictly inside the one before, lies
between the two.
-/

namespace Statechart

namespace Definition

open StateTree

variable {definition : Definition} {guards : String → Option Guard} {active : Configuration}
variable {context : Context} {event : String} {t u v w : Transition}
variable {kept transitions : List Transition} {before : Transition → Transition → Prop}

/-- A transition gives way to another that starts strictly inside it, if both exit a state in
common. -/
structure GivesWay (definition : Definition) (active : Configuration) (t u : Transition) :
    Prop where
  inside : definition.Below u.source t.source
  meets : definition.conflicts active t u = true

theorem conflicts_comm : definition.conflicts active t u = definition.conflicts active u t := by
  rw [Bool.eq_iff_iff, conflicts_iff, conflicts_iff]
  simp only [and_comm]

/-- A transition that is kept stays, or it gives way to the one that is weighed. -/
theorem kept_or_givesWay (isKept : u ∈ kept) :
    u ∈ definition.consider active kept t ∨
      (definition.GivesWay active u t ∧ t ∈ definition.consider active kept t) := by
  simp only [consider]
  split
  · next prevails =>
    cases meets : definition.conflicts active t u with
    | true =>
        right
        have opposed : u ∈ kept.filter (definition.conflicts active t) :=
          List.mem_filter.2 ⟨isKept, meets⟩
        have inside := List.all_eq_true.1 prevails u opposed
        exact ⟨⟨isBelow_iff.1 inside, conflicts_comm.trans meets⟩,
          List.mem_append_right _ (List.mem_singleton_self t)⟩
    | false =>
        left
        exact List.mem_append_left _ (List.mem_filter.2 ⟨isKept, by simp [meets]⟩)
  · exact .inl isKept

/-- The transition that is weighed is kept, or one stands against it in which it does not
start. -/
theorem kept_or_preempted (definition : Definition) (active : Configuration)
    (kept : List Transition) (t : Transition) :
    t ∈ definition.consider active kept t ∨
      (definition.consider active kept t = kept ∧
        ∃ u ∈ kept, definition.conflicts active t u = true ∧
          ¬ definition.Below t.source u.source) := by
  simp only [consider]
  split
  · exact .inl (List.mem_append_right _ (List.mem_singleton_self t))
  · next stands =>
    right
    simp only [List.all_eq_true, not_forall, List.mem_filter] at stands
    obtain ⟨u, ⟨isKept, meets⟩, outside⟩ := stands
    exact ⟨rfl, u, isKept, meets, fun inside => outside (isBelow_iff.2 inside)⟩

theorem removeConflicts_concat : definition.removeConflicts active (transitions ++ [t]) =
    definition.consider active (definition.removeConflicts active transitions) t := by
  rw [removeConflicts, List.foldl_append]
  rfl

/-- Of some transitions one is not kept and gives way to another. -/
structure Yields (definition : Definition) (active : Configuration)
    (transitions : List Transition) (t u : Transition) : Prop where
  member : t ∈ transitions
  dropped : t ∉ definition.removeConflicts active transitions
  givesWay : definition.GivesWay active t u

/-- What has been dropped does not come back. -/
theorem Yields.concat (yields : definition.Yields active transitions t u)
    (isNew : v ∉ transitions) : definition.Yields active (transitions ++ [v]) t u where
  member := List.mem_append_left _ yields.member
  dropped isKept := by
    rw [removeConflicts_concat] at isKept
    rcases mem_of_mem_consider isKept with before | rfl
    · exact yields.dropped before
    · exact isNew yields.member
  givesWay := yields.givesWay

/-- Whoever gives way to a transition that is kept is not kept. -/
theorem GivesWay.yields (givesWay : definition.GivesWay active t u) (member : t ∈ transitions)
    (isKept : u ∈ definition.removeConflicts active transitions) :
    definition.Yields active transitions t u where
  member := member
  dropped alsoKept := by
    have different : t ≠ u := by
      rintro rfl
      exact not_below_self givesWay.inside
    have apart := removeConflicts_spec.1.forall alsoKept isKept different
    rw [Apart, givesWay.meets] at apart
    cases apart
  givesWay := givesWay

/-- Where a transition that is weighed ends up: one after the other has given way, up to one
that is kept; or one that was chosen before is kept and stands against it. -/
def EndsUp (definition : Definition) (active : Configuration)
    (before : Transition → Transition → Prop) (transitions : List Transition) (t : Transition) :
    Prop :=
  ∃ w ∈ definition.removeConflicts active transitions,
    Relation.ReflTransGen (definition.Yields active transitions) t w ∨
      (before w t ∧ definition.conflicts active t w = true ∧
        ¬ definition.Below t.source w.source)

/-- What stands against another does not give way to a later one: were the later one to start
inside it, so would the other. -/
theorem EndsUp.concat (endsUp : definition.EndsUp active before transitions t)
    (member : t ∈ transitions) (ordered : (transitions ++ [v]).Pairwise before)
    (isNew : v ∉ transitions)
    (convex : ∀ {t u v}, before t u → before u v → definition.Below v.source t.source →
      definition.Below u.source t.source) :
    definition.EndsUp active before (transitions ++ [v]) t := by
  obtain ⟨w, isKept, reached⟩ := endsUp
  have isThere : w ∈ transitions := removeConflicts_spec.2 w isKept
  have onward : Relation.ReflTransGen (definition.Yields active transitions) t w →
      Relation.ReflTransGen (definition.Yields active (transitions ++ [v])) t w :=
    fun chain => chain.lift id fun _ _ yields => yields.concat isNew
  rcases kept_or_givesWay (t := v) isKept with stays | ⟨givesWay, isLast⟩
  · rw [← removeConflicts_concat] at stays
    exact ⟨w, stays, reached.imp_left onward⟩
  · rw [← removeConflicts_concat] at isLast
    rcases reached with chain | ⟨wasBefore, _, outside⟩
    · have yields : definition.Yields active (transitions ++ [v]) w v :=
        givesWay.yields (List.mem_append_left _ isThere) isLast
      exact ⟨v, isLast, .inl ((onward chain).tail yields)⟩
    · have isBefore : before t v := (List.pairwise_append.1 ordered).2.2 t member v (.head _)
      exact absurd (convex wasBefore isBefore givesWay.inside) outside

theorem endsUp_of_mem (ordered : transitions.Pairwise before) (distinct : transitions.Nodup)
    (convex : ∀ {t u v}, before t u → before u v → definition.Below v.source t.source →
      definition.Below u.source t.source) (member : t ∈ transitions) :
    definition.EndsUp active before transitions t := by
  induction transitions using List.reverseRecOn generalizing t with
  | nil => cases member
  | append_singleton earlier last ih =>
      obtain ⟨earlierOrdered, _, isBefore⟩ := List.pairwise_append.1 ordered
      obtain ⟨earlierDistinct, _, apart⟩ := List.nodup_append.1 distinct
      have isNew : last ∉ earlier := fun isThere => apart last isThere last (.head _) rfl
      rcases List.mem_append.1 member with isEarlier | isLast
      · exact (ih earlierOrdered earlierDistinct isEarlier).concat isEarlier ordered isNew convex
      · obtain rfl := List.mem_singleton.1 isLast
        rcases definition.kept_or_preempted active (definition.removeConflicts active earlier) t
          with isKept | ⟨same, w, isKept, meets, outside⟩
        · exact ⟨t, removeConflicts_concat ▸ isKept, .inl .refl⟩
        · have wasBefore : before w t :=
            isBefore w (removeConflicts_spec.2 w isKept) t (.head _)
          rw [← same, ← removeConflicts_concat] at isKept
          exact ⟨w, isKept, .inr ⟨wasBefore, meets, outside⟩⟩

/-- A transition that is not kept meets one that is, or it has given way to one that has given
way in its turn. -/
theorem EndsUp.meets_or_yields (endsUp : definition.EndsUp active before transitions t)
    (dropped : t ∉ definition.removeConflicts active transitions) :
    ∃ w ∈ definition.removeConflicts active transitions,
      definition.conflicts active t w = true ∨
        ∃ u, definition.Yields active transitions t u ∧
          Relation.TransGen (definition.Yields active transitions) u w := by
  obtain ⟨w, isKept, chain | ⟨_, meets, _⟩⟩ := endsUp
  · refine ⟨w, isKept, ?_⟩
    rcases chain.cases_head with rfl | ⟨u, yields, onward⟩
    · exact absurd isKept dropped
    · rcases Relation.reflTransGen_iff_eq_or_transGen.1 onward with rfl | further
      · exact .inl yields.givesWay.meets
      · exact .inr ⟨u, yields, further⟩
  · exact ⟨w, isKept, .inl meets⟩

theorem mem_transitions_of_candidates? {n : Nat} {candidates : List Transition}
    (found : definition.candidates? n event = some candidates) (member : t ∈ candidates) :
    t ∈ definition.transitions n := by
  obtain ⟨earlier, later, split, _⟩ := List.lookup_eq_some_iff.1 found
  refine List.mem_append_left _ (List.mem_flatMap.2 ⟨(event, candidates), ?_, member⟩)
  simp [split]

namespace WellFormed

variable (wellFormed : definition.WellFormed) {leaf n : Nat}

include wellFormed

/-- What a leaf chooses is the candidate of its source, and no state on the way up to there
handles the event. -/
theorem source_of_chooses (chooses : definition.Chooses guards context event leaf t) :
    definition.Within leaf t.source ∧
      definition.candidateOf? guards context event t.source = some t ∧
      ∀ m, definition.Within leaf m → definition.Below m t.source →
        ¬ definition.Handles guards context event m := by
  obtain ⟨n, earlier, later, within, found, passes, held, nearest⟩ := chooses
  obtain rfl : t.source = n :=
    wellFormed.source (mem_transitions_of_candidates? found (by simp))
  exact ⟨within, candidateOf?_eq_some_iff.2 ⟨earlier, later, found, passes, held⟩, nearest⟩

/-- A leaf below the source of a transition that passes chooses it, or one that starts strictly
inside it. -/
theorem eq_or_inside (chosen : definition.candidateOf? guards context event t.source = some t)
    (below : definition.Below leaf t.source)
    (chooses : definition.Chooses guards context event leaf u) :
    u = t ∨ definition.Below u.source t.source := by
  obtain ⟨within, isCandidate, nearest⟩ := wellFormed.source_of_chooses chooses
  rcases (Within.chain within (.inr below)) with (same | inside) | (same | around)
  · rw [same, chosen] at isCandidate
    exact .inl (Option.some.inj isCandidate).symm
  · exact .inr inside
  · rw [← same, chosen] at isCandidate
    exact .inl (Option.some.inj isCandidate).symm
  · have handles : definition.Handles guards context event t.source := by
      rw [← candidateOf?_ne_none_iff, chosen]
      simp
    exact absurd handles (nearest t.source (.inr below) around)

end WellFormed

/-- Between two leaves that choose transitions which start in a state, every leaf chooses one
that does. -/
theorem inside_of_chosenBefore {machine : MachineSpec} (built : machine.build = .ok definition)
    {leaves : List Nat} (first : definition.ChosenBefore guards context event leaves t u)
    (second : definition.ChosenBefore guards context event leaves u v)
    (inside : definition.Below v.source t.source) : definition.Below u.source t.source := by
  have wellFormed := MachineSpec.wellFormed_of_build built
  obtain ⟨leaf, middle, choosesFirst, choosesMiddle, before⟩ := first
  obtain ⟨other, last, alsoMiddle, choosesLast, after⟩ := second
  obtain rfl := choosesMiddle.unique alsoMiddle
  obtain ⟨within, isCandidate, _⟩ := wellFormed.source_of_chooses choosesFirst.chooses
  obtain ⟨lastWithin, _, _⟩ := wellFormed.source_of_chooses choosesLast.chooses
  have below : definition.Below middle t.source :=
    below_of_between built within (lastWithin.below inside) before after
  rcases wellFormed.eq_or_inside isCandidate below choosesMiddle.chooses with rfl | isInside
  · rw [choosesFirst.unique choosesMiddle] at before
    exact absurd before (Nat.lt_irrefl _)
  · exact isInside

/-- A transition leads into a region of a parallel state that does not hold a given state. -/
def LeadsElsewhere (definition : Definition) (t : Transition) (n : Nat) : Prop :=
  ∃ g, t.target = some g ∧
    definition.kind (definition.scope t.source g).domain = .parallel ∧
    ¬ definition.Encloses t.source g n

/-- A transition exits a state below its domain, unless it leads into a region that does not
hold this state. -/
theorem touches_or_leadsElsewhere {n g : Nat} (linked : definition.toStateTree.Linked)
    (isTarget : t.target = some g) (inTree : g < definition.size)
    (below : definition.Below n (definition.scope t.source g).domain) :
    definition.Touches t n ∨ definition.LeadsElsewhere t n := by
  by_cases isRoot : g = root
  · subst isRoot
    rw [scope_root] at below
    exact .inl ⟨root, isTarget, inScope_root_iff.2 below⟩
  · have targetBelow : definition.Below g (definition.scope t.source g).domain :=
      below_domain linked inTree isRoot
    by_cases encloses : definition.Encloses t.source g n
    · exact .inl ⟨g, isTarget, (encloses_iff targetBelow).1 encloses⟩
    · by_cases isParallel : definition.kind (definition.scope t.source g).domain = .parallel
      · exact .inr ⟨g, isTarget, isParallel, encloses⟩
      · rw [Encloses, if_neg isParallel] at encloses
        exact absurd below encloses

/-- A transition that a leaf has chosen is not taken, and it gives way to another. -/
structure Displaced (definition : Definition) (guards : String → Option Guard)
    (active : Configuration) (context : Context) (event : String) (t u : Transition) : Prop where
  chosen : ∃ leaf ∈ Configuration.leaves definition.toStateTree active,
    definition.Chooses guards context event leaf t
  lost : t ∉ definition.select guards active context event
  inside : definition.Below u.source t.source
  meets : ∃ n ∈ definition.exitSet active t, n ∈ definition.exitSet active u

theorem conflicts_iff_meets : definition.conflicts active t u = true ↔
    ∃ n ∈ definition.exitSet active t, n ∈ definition.exitSet active u := by
  rw [conflicts_iff]
  simp only [mem_exitSet]
  constructor
  · rintro ⟨n, isActive, touches, alsoTouches⟩
    exact ⟨n, ⟨isActive, touches⟩, isActive, alsoTouches⟩
  · rintro ⟨n, ⟨isActive, touches⟩, _, alsoTouches⟩
    exact ⟨n, isActive, touches, alsoTouches⟩

theorem Displaced.of_yields
    (yields : definition.Yields active (definition.enabled guards active context event) t u) :
    definition.Displaced guards active context event t u where
  chosen := mem_chosen_iff.1 yields.member
  lost := yields.dropped
  inside := yields.givesWay.inside
  meets := conflicts_iff_meets.1 yields.givesWay.meets

/-- Along a chain of transitions that have given way each starts inside the first, and the last
exits something as well. -/
theorem inside_of_displaced
    (chain : Relation.TransGen (definition.Displaced guards active context event) t u) :
    definition.Below u.source t.source ∧ ∃ n, n ∈ definition.exitSet active u := by
  induction chain with
  | single displaced =>
      obtain ⟨n, _, exited⟩ := displaced.meets
      exact ⟨displaced.inside, n, exited⟩
  | tail _ displaced ih =>
      obtain ⟨n, _, exited⟩ := displaced.meets
      exact ⟨displaced.inside.trans ih.1, n, exited⟩

/-- Of two transitions of which the inner one starts in an active state both exit that state,
unless one leads elsewhere. -/
theorem WellFormed.meets_or_leadsElsewhere (wellFormed : definition.WellFormed)
    (legal : Configuration.Legal definition.toStateTree active) {n m : Nat}
    (declared : t ∈ definition.transitions n) (alsoDeclared : u ∈ definition.transitions m)
    (isActive : u.source ∈ active) (inside : definition.Below u.source t.source)
    (exits : ∃ n, n ∈ definition.exitSet active t)
    (alsoExits : ∃ n, n ∈ definition.exitSet active u) :
    (∃ n ∈ definition.exitSet active t, n ∈ definition.exitSet active u) ∨
      definition.LeadsElsewhere t u.source ∨ definition.LeadsElsewhere u u.source := by
  obtain ⟨_, exited⟩ := exits
  obtain ⟨_, alsoExited⟩ := alsoExits
  obtain ⟨_, g, isTarget, _⟩ := mem_exitSet.1 exited
  obtain ⟨_, h, alsoTarget, _⟩ := mem_exitSet.1 alsoExited
  have innerInTree : u.source < definition.size := legal.inTree isActive
  have outerInTree : t.source < definition.size := Nat.lt_trans inside.lt innerInTree
  have belowOuter : definition.Below u.source (definition.scope t.source g).domain :=
    inside.of_within (source_within_domain wellFormed.linked outerInTree)
  have belowInner : definition.Below u.source (definition.scope u.source h).domain := by
    rcases domain_eq_or definition.toStateTree u.source h with above | atRoot
    · exact above
    · have notRoot : u.source ≠ root := fun isRoot => not_below_root (isRoot ▸ inside)
      exact atRoot ▸ wellFormed.linked.below_root innerInTree notRoot
  rcases touches_or_leadsElsewhere wellFormed.linked isTarget
    (wellFormed.target declared isTarget) belowOuter with touches | elsewhere
  · rcases touches_or_leadsElsewhere wellFormed.linked alsoTarget
      (wellFormed.target alsoDeclared alsoTarget) belowInner with alsoTouches | elsewhere
    · exact .inl ⟨u.source, mem_exitSet.2 ⟨isActive, touches⟩, mem_exitSet.2 ⟨isActive, alsoTouches⟩⟩
    · exact .inr (.inr elsewhere)
  · exact .inr (.inl elsewhere)

/-- A transition that a leaf has chosen and that is not taken exits a state in common with one
that is taken, unless the one that it gives way to gives way in its turn. Then one gives way to
the next, each time further inside, up to one that is taken; and either this one or the first
leads into a region of a parallel state that does not hold the state where the last starts. -/
theorem meets_taken_or_displaced {machine : MachineSpec} (built : machine.build = .ok definition)
    (legal : Configuration.isLegal definition.toStateTree active = true) {leaf : Nat}
    (isLeaf : leaf ∈ Configuration.leaves definition.toStateTree active)
    (chooses : definition.Chooses guards context event leaf t)
    (lost : t ∉ definition.select guards active context event) :
    ∃ taken ∈ definition.select guards active context event,
      (∃ n ∈ definition.exitSet active t, n ∈ definition.exitSet active taken) ∨
      ∃ u, definition.Displaced guards active context event t u ∧
        Relation.TransGen (definition.Displaced guards active context event) u taken ∧
        (definition.LeadsElsewhere t taken.source ∨
          definition.LeadsElsewhere taken taken.source) := by
  have wellFormed := MachineSpec.wellFormed_of_build built
  have isLegal := (Configuration.isLegal_iff wellFormed.linked).1 legal
  have isEnabled : t ∈ definition.enabled guards active context event :=
    mem_chosen_iff.2 ⟨leaf, isLeaf, chooses⟩
  have endsUp : definition.EndsUp active
      (definition.ChosenBefore guards context event
        (Configuration.leaves definition.toStateTree active))
      (definition.enabled guards active context event) t :=
    endsUp_of_mem pairwise_enabled nodup_enabled (inside_of_chosenBefore built) isEnabled
  obtain ⟨taken, isTaken, meets | ⟨u, yields, further⟩⟩ := endsUp.meets_or_yields lost
  · exact ⟨taken, isTaken, .inl (conflicts_iff_meets.1 meets)⟩
  · have displaced : definition.Displaced guards active context event t u := .of_yields yields
    have onward : Relation.TransGen (definition.Displaced guards active context event) u taken :=
      further.lift id fun _ _ => .of_yields
    obtain ⟨inside, exits⟩ := inside_of_displaced (onward.head displaced)
    obtain ⟨isActive, declared⟩ := wellFormed.declared_of_select isLegal isTaken
    obtain ⟨n, _, found⟩ := declared_of_chosenBy? (chosenBy?_eq_some_iff.2 chooses)
    obtain ⟨m, exited, _⟩ := displaced.meets
    rcases wellFormed.meets_or_leadsElsewhere isLegal found declared isActive inside ⟨m, exited⟩
      exits with common | elsewhere
    · exact ⟨taken, isTaken, .inl common⟩
    · exact ⟨taken, isTaken, .inr ⟨u, displaced, onward, elsewhere⟩⟩

end Definition

namespace MachineSpec

/-- A festival at which a storm shuts the gate, ends everything, or has the crew take shelter,
depending on who sees to it. -/
def festival : MachineSpec :=
  (named "festival").startingIn "open"
    |>.child "open" (StateSpec.parallel
      |>.child "stage" ((StateSpec.parallel.candidate "storm" (.leadingTo "#festival.open.gate.shut"))
        |>.child "lamps" StateSpec.atomic
        |>.child "show" ((StateSpec.parallel.candidate "storm" (.leadingTo "#festival.over"))
          |>.child "band" StateSpec.atomic
          |>.child "crew" (StateSpec.compound "working"
            |>.child "working" (StateSpec.atomic.candidate "storm" (.leadingTo "sheltered"))
            |>.child "sheltered" StateSpec.atomic)))
      |>.child "gate" (StateSpec.compound "ajar"
        |>.child "ajar" StateSpec.atomic
        |>.child "shut" StateSpec.atomic))
    |>.child "over" StateSpec.atomic

theorem festival_built : festival.build = .ok festival.resolved :=
  build_eq_ok_iff.2 ⟨by decide +kernel, rfl⟩

/-- The festival while everything is on and the gate is ajar. -/
def bustling : Configuration := .ofList [0, 1, 2, 3, 4, 5, 6, 7, 9, 10]

/-- What the stage would do in a storm. -/
def shuttingGate : Transition := ⟨"storm", 2, some 11, none, []⟩

/-- In a storm the lamps would have the gate shut. The show displaces them and is displaced by
the crew, who take shelter, and the gate stays ajar. -/
theorem festival_gate_stays_ajar :
    festival.build = .ok festival.resolved ∧
      Configuration.isLegal festival.resolved.toStateTree bustling = true ∧
      3 ∈ Configuration.leaves festival.resolved.toStateTree bustling ∧
      festival.resolved.Chooses (fun _ => none) .empty "storm" 3 shuttingGate ∧
      shuttingGate ∉ festival.resolved.select (fun _ => none) bustling .empty "storm" ∧
      ¬ ∃ taken ∈ festival.resolved.select (fun _ => none) bustling .empty "storm",
        ∃ n ∈ festival.resolved.exitSet bustling shuttingGate,
          n ∈ festival.resolved.exitSet bustling taken := by
  have chosen : festival.resolved.chosenBy? (fun _ => none) .empty "storm" 3 =
      some shuttingGate := by decide +kernel
  have apart : ∀ taken ∈ festival.resolved.select (fun _ => none) bustling .empty "storm",
      festival.resolved.conflicts bustling shuttingGate taken = false := by decide +kernel
  refine ⟨festival_built, by decide +kernel, by decide +kernel,
    Definition.chosenBy?_eq_some_iff.1 chosen, by decide +kernel, ?_⟩
  rintro ⟨taken, isTaken, meets⟩
  have conflicts := Definition.conflicts_iff_meets.2 meets
  rw [apart taken isTaken] at conflicts
  cases conflicts

/-- Between the stage, whose transition is lost, and the crew, whose transition is taken, stands
the show. -/
theorem festival_stage_displaced :
    ∃ taken ∈ festival.resolved.select (fun _ => none) bustling .empty "storm",
      (∃ n ∈ festival.resolved.exitSet bustling shuttingGate,
        n ∈ festival.resolved.exitSet bustling taken) ∨
      ∃ u, festival.resolved.Displaced (fun _ => none) bustling .empty "storm" shuttingGate u ∧
        Relation.TransGen
          (festival.resolved.Displaced (fun _ => none) bustling .empty "storm") u taken ∧
        (festival.resolved.LeadsElsewhere shuttingGate taken.source ∨
          festival.resolved.LeadsElsewhere taken taken.source) := by
  have chosen : festival.resolved.chosenBy? (fun _ => none) .empty "storm" 3 =
      some shuttingGate := by decide +kernel
  exact Definition.meets_taken_or_displaced festival_built (by decide +kernel)
    (show 3 ∈ Configuration.leaves festival.resolved.toStateTree bustling by decide +kernel)
    (Definition.chosenBy?_eq_some_iff.1 chosen) (by decide +kernel)

end MachineSpec

end Statechart
