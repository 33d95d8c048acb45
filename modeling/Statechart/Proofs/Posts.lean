import Statechart.Mission
import Statechart.Proofs.Enactment
import Statechart.Proofs.Retiming
import Statechart.Proofs.Tables

/-!
# The posts of the mission

A mission is always in one of nine configurations, its posts. Which post it goes to is decided by
the event, whatever the context, and however long tracking lasts before it escalates. And of the
predator's flag each event makes one thing, from whatever post to whatever other.
-/

namespace Statechart

namespace Keyed

variable {α : Type} {key other : String} {value : α} {entries : List (String × α)}

theorem lookup_cons {entry : String × α} : (entry :: entries).lookup other =
    if other = entry.1 then some entry.2 else entries.lookup other := by
  by_cases same : other = entry.1
  · simp [List.lookup, same]
  · have notThere : (other == entry.1) = false := beq_eq_false_iff_ne.2 same
    simp [List.lookup, notThere, same]

theorem lookup_insert : (insert key value entries).lookup other =
    if other = key then some value else entries.lookup other := by
  induction entries with
  | nil => simp [insert, lookup_cons]
  | cons entry rest ih =>
      simp only [insert]
      split
      · simp [lookup_cons]
      · split
        · next isKey => by_cases same : other = key <;> simp [lookup_cons, ← isKey, same]
        · next different =>
          by_cases same : other = key
          · subst same
            simp [lookup_cons, different, ih]
          · simp [lookup_cons, ih, same]

end Keyed

namespace Mission

/-- Where a mission can be. -/
inductive Post
  | off
  | unconfigured
  | configured
  | ready
  | approaching
  | patrolling
  | tracking
  | countering
  | crashed
  deriving DecidableEq

namespace Post

def all : List Post :=
  [off, unconfigured, configured, ready, approaching, patrolling, tracking, countering, crashed]

theorem mem_all (post : Post) : post ∈ all := by
  cases post <;> simp [all]

/-- The states that are active at a post. -/
def active : Post → Configuration
  | off => .ofList [0, 1, 2]
  | unconfigured => .ofList [0, 1, 3]
  | configured => .ofList [0, 1, 4]
  | ready => .ofList [0, 1, 5]
  | approaching => .ofList [0, 6, 7, 8, 19, 20]
  | patrolling => .ofList [0, 6, 7, 9, 10, 11, 12, 13, 14, 15, 19, 20]
  | tracking => .ofList [0, 6, 7, 16, 17, 19, 20]
  | countering => .ofList [0, 6, 7, 16, 18, 19, 20]
  | crashed => .ofList [0, 21]

/-- A predator is being tracked or countered. -/
def isAlarmed : Post → Bool
  | tracking | countering => true
  | off | unconfigured | configured | ready | approaching | patrolling | crashed => false

def isDeployed : Post → Bool
  | approaching | patrolling | tracking | countering => true
  | off | unconfigured | configured | ready | crashed => false

/-- Where an event leads from a post. -/
def next? (variant : MissionVariant) (event : String) : Post → Option Post
  | off => if event = startSoi then some unconfigured else none
  | unconfigured =>
    if event = flightPlan then some configured
    else if event = flightPlanCheckFailed then some unconfigured
    else none
  | configured => if event = readyForMission then some ready else none
  | ready => if event = startSheepGuardMission then some approaching else none
  | approaching =>
    if event = startPatrolling then some patrolling
    else if event = crashedDetected then some crashed
    else none
  | patrolling =>
    if event = predatorDetected then some tracking
    else if event = crashedDetected then some crashed
    else none
  | tracking =>
    if event = predatorEnteringSafeArea then some countering
    else if event = predatorLeavingTrackingPerimeter then
      match variant with
      | .eventDriven => some patrolling
      | .timedEscalation => some tracking
    else if event = crashedDetected then some crashed
    else none
  | countering =>
    if event = predatorLeavingTrackingPerimeter then some patrolling
    else if event = predatorLeavingSafeArea then
      match variant with
      | .eventDriven => some tracking
      | .timedEscalation => some patrolling
    else if event = crashedDetected then some crashed
    else none
  | crashed => none

variable {variant : MissionVariant} {event : String} {post next : Post}

theorem next?_of_unknown (unknown : event ∉ signals) : post.next? variant event = none := by
  simp only [signals, List.mem_cons, List.not_mem_nil, or_false, not_or] at unknown
  cases post <;> simp [next?, unknown]

theorem next?_crashed (deployed : post.isDeployed = true) :
    post.next? variant crashedDetected = some .crashed := by
  cases post <;> first | rfl | cases deployed

theorem tracking_of_active (isActive : 17 ∈ post.active) : post = .tracking := by
  cases post <;> first | rfl | exact absurd isActive (by decide)

theorem known_of_next (handled : post.next? variant event = some next) : event ∈ signals := by
  by_contra unknown
  cases (next?_of_unknown unknown).symm.trans handled

end Post

/-- What an action makes of the predator's flag. -/
def flagAfter (flag : Bool) (action : String) : Bool :=
  if action = onPredatorDetected then true
  else if action = onPredatorLeavingPerimeter then false
  else flag

/-- What an event makes of the flag. -/
def flagOn (event : String) (flag : Bool) : Bool :=
  if event = predatorDetected then true
  else if event = predatorLeavingTrackingPerimeter then false
  else flag

@[simp] theorem flagOn_detected (flag : Bool) : flagOn predatorDetected flag = true := rfl

@[simp] theorem flagOn_leaving (flag : Bool) :
    flagOn predatorLeavingTrackingPerimeter flag = false := by
  simp [flagOn, predatorDetected, predatorLeavingTrackingPerimeter]

theorem flagOn_of_ne {event : String} (notDetected : event ≠ predatorDetected)
    (notLeaving : event ≠ predatorLeavingTrackingPerimeter) (flag : Bool) :
    flagOn event flag = flag := by
  simp [flagOn, notDetected, notLeaving]

/-- What the actions of a plan make of the flag. -/
def flagThrough (plan : Plan) (flag : Bool) : Bool :=
  (plan.invocations.map (·.action)).foldl flagAfter flag

/-- What a mission is built to. -/
def chart (variant : MissionVariant) (escalation : Duration) : Definition :=
  (spec variant escalation).resolved

/-- What the definition of a mission says of its posts. -/
structure Tabulated (variant : MissionVariant) (definition : Definition) : Prop where
  /-- Nothing is in the way of building it. -/
  problems : (spec variant defaultEscalation).problems = []
  initial : definition.initialConfiguration = Post.off.active ∧
    flagThrough definition.initialPlan false = false
  /-- Posts lead to each other as the mission says. -/
  outcome : ∀ post ∈ Post.all, ∀ event ∈ signals,
    (definition.outcomeWithin 30 post.active event).map
        (Option.map fun plan => (plan.configuration, [false, true].map (flagThrough plan))) =
      some ((post.next? variant event).map fun next =>
        (next.active, [false, true].map (flagOn event)))
  escalation : (definition.planWithin 30 Post.tracking.active
        [⟨initEvent, 17, some 18, none, [onStartCounterAction]⟩]).map
      (fun plan => (plan.configuration, [false, true].map (flagThrough plan))) =
    some (Post.countering.active, [false, true])
  /-- Only tracking escalates. -/
  delayed : ∀ entry ∈ (spec variant defaultEscalation).declarations.zipIdx,
    ∀ delayed ∈ entry.1.after,
      variant = .timedEscalation ∧ entry.2 = 17 ∧ delayed.actions = [onStartCounterAction] ∧
        (StateTree.ofMachine (spec variant defaultEscalation)).resolve? 17 delayed.target =
          some 18
  behaviour : ∀ behaviour ∈ definition.behaviours.toList,
    (∀ action ∈ behaviour.entry ++ behaviour.exit, action ∈ actionNames) ∧
      ∀ entry ∈ behaviour.on, entry.1 ∈ signals ∧ ∀ t ∈ entry.2, t.guard = none ∧
        ∀ action ∈ t.actions, action ∈ actionNames
  value : ∀ post ∈ Post.all,
    (Configuration.value definition.toStateTree post.active).isAt
        "Deployed.Main.Predator Detected" = post.isAlarmed ∧
      (Configuration.value definition.toStateTree post.active).isAt "Deployed" =
        post.isDeployed ∧
      (post = .crashed → Configuration.value definition.toStateTree post.active = .leaf "Crashed")
  isInFinal : ∀ post ∈ Post.all,
    Configuration.isInFinal definition.toStateTree post.active StateTree.root = (post == .crashed)

theorem tabulated (variant : MissionVariant) :
    Tabulated variant (chart variant defaultEscalation) := by
  -- the tables are closed, and checked post by post
  cases variant <;> exact {
    problems := by decide +kernel
    initial := by decide +kernel
    outcome := by decide +kernel
    escalation := by decide +kernel
    delayed := by decide +kernel
    behaviour := by decide +kernel
    value := by decide +kernel
    isInFinal := by decide +kernel }

section Chart

variable {variant : MissionVariant} {escalation : Duration} {post next : Post} {event : String}
variable {guards : String → Option Guard} {context : Context}

theorem spec_eq (variant : MissionVariant) (escalation : Duration) :
    spec variant escalation = (spec variant defaultEscalation).retimed escalation.ceilMillis := by
  cases variant <;>
    simp [spec, undeployed, deployed, predatorStates, tracking, counteraction, patrolling, watched,
      logged, StateSpec.atomic, StateSpec.parallel, StateSpec.final, DelayedSpec.after,
      DelayedSpec.action]

theorem retimes_chart (variant : MissionVariant) (escalation : Duration) :
    (chart variant escalation).Retimes (chart variant defaultEscalation) := by
  rw [chart, spec_eq]
  exact MachineSpec.retimes_resolved

theorem ceilMillis_ne_zero (positive : escalation ≠ .zero) : escalation.ceilMillis ≠ 0 := by
  have nanos : escalation.nanos ≠ 0 := fun isZero => positive (Duration.ext_nanos isZero)
  intro isZero
  have wraps := congrArg UInt64.toNat isZero
  simp only [Duration.ceilMillis, UInt64.toNat_ofNat', UInt64.toNat_zero] at wraps
  omega

/-- A mission can be built unless tracking escalates at once. -/
theorem build_spec (positive : escalation ≠ .zero) :
    (spec variant escalation).build = .ok (chart variant escalation) := by
  refine MachineSpec.build_eq_ok_iff.2 ⟨?_, rfl⟩
  rw [spec_eq]
  exact MachineSpec.problems_retimed (ceilMillis_ne_zero positive)
    (tabulated variant).problems

theorem behaviour_chart (n : Nat) :
    (∀ action ∈ ((chart variant escalation).behaviour n).entry ++
        ((chart variant escalation).behaviour n).exit, action ∈ actionNames) ∧
      ∀ entry ∈ ((chart variant escalation).behaviour n).on, entry.1 ∈ signals ∧
        ∀ t ∈ entry.2, t.guard = none ∧ ∀ action ∈ t.actions, action ∈ actionNames := by
  have same := retimes_chart variant escalation
  rw [same.entry, same.exit, same.on, Definition.behaviour]
  cases found : (chart variant defaultEscalation).behaviours[n]? with
  | none => simp [default]
  | some behaviour =>
      have member := List.mem_of_getElem? (Array.getElem?_toList.trans found)
      exact (tabulated variant).behaviour behaviour member

theorem unguarded_chart : (chart variant escalation).Unguarded :=
  fun n entry declared t isCandidate => (((behaviour_chart n).2 entry declared).2 t isCandidate).1

theorem knows_chart : (chart variant escalation).Knows signals :=
  fun n entry declared => ((behaviour_chart n).2 entry declared).1

/-- What a mission shows at a post. -/
theorem value_chart (variant : MissionVariant) (escalation : Duration) (post : Post) :
    (Configuration.value (chart variant escalation).toStateTree post.active).isAt
        "Deployed.Main.Predator Detected" = post.isAlarmed ∧
      (Configuration.value (chart variant escalation).toStateTree post.active).isAt
        "Deployed" = post.isDeployed ∧
      (post = .crashed → Configuration.value (chart variant escalation).toStateTree
        post.active = .leaf "Crashed") := by
  rw [(retimes_chart variant escalation).tree]
  exact (tabulated variant).value post post.mem_all

theorem isInFinal_chart (variant : MissionVariant) (escalation : Duration) (post : Post) :
    Configuration.isInFinal (chart variant escalation).toStateTree post.active StateTree.root =
      (post == .crashed) := by
  rw [(retimes_chart variant escalation).tree]
  exact (tabulated variant).isInFinal post post.mem_all

theorem predator_initialContext : initialContext.bool? predatorKey = some false := by
  decide

theorem initialConfiguration_chart (variant : MissionVariant) (escalation : Duration) :
    (chart variant escalation).initialConfiguration = Post.off.active :=
  (congrArg Plan.configuration (retimes_chart variant escalation).initialPlan_eq).trans
    (tabulated variant).initial.1

/-- A plan leads to a post and makes one thing of the flag. -/
structure Reaches (plan : Plan) (next : Post) (flags : Bool → Bool) : Prop where
  configuration : plan.configuration = next.active
  flag : ∀ flag, flagThrough plan flag = flags flag

theorem reaches_of_pair {plan : Plan} {flags : Bool → Bool}
    (same : (plan.configuration, [false, true].map (flagThrough plan)) =
      (next.active, [false, true].map flags)) : Reaches plan next flags := by
  simp only [List.map_cons, List.map_nil, Prod.mk.injEq, List.cons.injEq, and_true] at same
  obtain ⟨configuration, ofFalse, ofTrue⟩ := same
  refine ⟨configuration, fun flag => ?_⟩
  cases flag with
  | false => exact ofFalse
  | true => exact ofTrue

/-- An event that leads nowhere takes no transition. -/
theorem select_eq_nil (unhandled : post.next? variant event = none) :
    (chart variant escalation).select guards post.active context event = [] := by
  rw [(retimes_chart variant escalation).select_eq]
  by_cases known : event ∈ signals
  · have table := (tabulated variant).outcome post post.mem_all event known
    rw [unhandled, Option.map_none, Option.map_eq_some_iff] at table
    obtain ⟨outcome, isOutcome, nothing⟩ := table
    obtain rfl := Option.map_eq_none_iff.1 nothing
    exact Definition.select_of_outcomeWithin_none unguarded_chart isOutcome
  · exact knows_chart.select_eq_nil known

/-- An event that leads on takes transitions that lead there. -/
theorem reaches_next (escalation : Duration) (guards : String → Option Guard) (context : Context)
    (handled : post.next? variant event = some next) :
    (chart variant escalation).select guards post.active context event ≠ [] ∧
      Reaches ((chart variant escalation).plan post.active
        ((chart variant escalation).select guards post.active context event)) next
        (flagOn event) := by
  have same := retimes_chart variant escalation
  rw [same.select_eq, same.plan_eq]
  have known := Post.known_of_next handled
  have table := (tabulated variant).outcome post post.mem_all event known
  rw [handled, Option.map_some, Option.map_eq_some_iff] at table
  obtain ⟨outcome, isOutcome, isPair⟩ := table
  obtain ⟨plan, rfl, isPair⟩ := Option.map_eq_some_iff.1 isPair
  obtain ⟨selected, isPlan⟩ := Definition.plan_of_outcomeWithin unguarded_chart isOutcome
  refine ⟨selected, ?_⟩
  rw [isPlan]
  exact reaches_of_pair (Option.some.inj isPair)

/-- No delayed transition goes by the name of a signal. -/
theorem delayedEvent_not_mem (tree : StateTree) (n : Nat) (declaration : DelayedSpec) :
    tree.delayedEvent n declaration ∉ signals := by
  have heads : ∀ signal ∈ signals, signal.toList.head? ≠ some 'a' := by decide
  intro isSignal
  exact heads _ isSignal (by simp [StateTree.delayedEvent])

/-- Only tracking escalates, to counteraction. -/
theorem delayed_chart {n : Nat} {delayed : DelayedTransition}
    (declared : delayed ∈ ((chart variant escalation).behaviour n).after) :
    variant = .timedEscalation ∧ n = 17 ∧ ∃ event ∉ signals,
      delayed.transition = ⟨event, 17, some 18, none, [onStartCounterAction]⟩ := by
  rw [chart, spec_eq] at declared
  obtain ⟨spec, declaration, target, isSpec, isDeclared, resolves, isTransition⟩ :=
    MachineSpec.exists_declared_of_retimed declared
  obtain ⟨isTimed, isTracking, isAction, resolvesTo⟩ := (tabulated variant).delayed
    (spec, n) (List.mem_zipIdx_iff_getElem?.2 isSpec) declaration isDeclared
  dsimp only at isTracking
  rw [isTracking] at resolves isTransition
  obtain rfl := Option.some.inj (resolves.symm.trans resolvesTo)
  rw [isAction] at isTransition
  exact ⟨isTimed, isTracking, _, delayedEvent_not_mem _ _ _, isTransition⟩

/-- Nothing is due of any other state. -/
theorem timersOf_chart {states : List Nat} (elsewhere : 17 ∉ states) :
    (chart variant escalation).timersOf states = [] := by
  refine List.flatMap_eq_nil_iff.2 fun n member => ?_
  have nothing : ((chart variant escalation).behaviour n).after = [] := by
    refine List.eq_nil_iff_forall_not_mem.2 fun delayed declared => ?_
    exact elsewhere ((delayed_chart declared).2.1 ▸ member)
  simp [nothing]

/-- An escalation leaves the flag as it is. -/
theorem reaches_countering (event : String) :
    Reaches ((chart variant escalation).plan Post.tracking.active
      [⟨event, 17, some 18, none, [onStartCounterAction]⟩]) .countering id := by
  have table := (tabulated variant).escalation
  obtain ⟨plan, isPlan, isPair⟩ := Option.map_eq_some_iff.1 table
  -- a plan does not depend on the event
  have samePlan : (chart variant escalation).plan Post.tracking.active
      [⟨event, 17, some 18, none, [onStartCounterAction]⟩] = plan := by
    rw [(retimes_chart variant escalation).plan_eq]
    exact Definition.plan_of_planWithin isPlan
  rw [samePlan]
  exact reaches_of_pair isPair

end Chart

section Actions

variable {σ Listener : Type}

theorem action?_defaultActions (name : String) :
    (defaultActions : Registry σ Listener).action? name =
      if name ∈ actionNames then some (actionOf name) else none := by
  have general : ∀ (names : List String) (registry : Registry σ Listener),
      (names.foldl (fun registry name => registry.withAction name (actionOf name))
        registry).action? name =
      if name ∈ names then some (actionOf name) else registry.action? name := by
    intro names
    induction names with
    | nil => simp
    | cons first rest ih =>
        intro registry
        rw [List.foldl_cons, ih]
        by_cases later : name ∈ rest
        · simp [later]
        · by_cases same : name = first <;>
            simp [later, same, Registry.action?, Registry.withAction, Keyed.lookup_insert]
  exact general actionNames {}

/-- An action of the mission ends at once, and leaves no event behind. -/
theorem actionOf_eq (name : String) (call : ActionCall) :
    ∃ context, (actionOf name : Action σ Listener) call = .done (.ok { context }) ∧
      ∀ flag, call.context.bool? predatorKey = some flag →
        context.bool? predatorKey = some (flagAfter flag name) := by
  unfold actionOf flagAfter
  split
  · refine ⟨_, rfl, fun flag _ => ?_⟩
    simp [Context.bool?, Context.get?, Context.set, Keyed.lookup_insert, Json.canonical, Json.bool?]
  · split
    · refine ⟨_, rfl, fun flag _ => ?_⟩
      simp [Context.bool?, Context.get?, Context.set, Keyed.lookup_insert, Json.canonical,
        Json.bool?]
    · exact ⟨call.context, rfl, fun flag known => known⟩

theorem silent_defaultActions : (defaultActions : Registry σ Listener).Silent := by
  intro name action isAction call
  rw [action?_defaultActions] at isAction
  split at isAction
  · obtain rfl := Option.some.inj isAction
    obtain ⟨context, ends, _⟩ := actionOf_eq name call
    rw [ends]
    trivial
  · cases isAction

variable (program : Program σ Listener) (isRegistry : program.registry = defaultActions)

include isRegistry

/-- The actions of a step all succeed, raise nothing and make of the flag what they should. -/
theorem perform_defaultActions (event : String) (calls : List Invocation) (raised : List String)
    (memory : σ) {context : Context} {flag : Bool}
    (known : context.bool? predatorKey = some flag) :
    ∃ left, program.perform? event calls context raised memory =
        some (.ok (left, raised), memory) ∧
      left.bool? predatorKey = some ((calls.map (·.action)).foldl flagAfter flag) := by
  induction calls generalizing context flag with
  | nil => exact ⟨context, rfl, known⟩
  | cons call pending ih =>
      simp only [Program.perform?, isRegistry, action?_defaultActions]
      by_cases isNamed : call.action ∈ actionNames
      · obtain ⟨next, ends, flags⟩ := @actionOf_eq σ Listener call.action
          ⟨context, event, (program.definition.node call.state).id⟩
        simp only [isNamed, if_true, ends, Routine.outcome?, List.append_nil]
        exact ih (flags flag known)
      · have unchanged : flagAfter flag call.action = flag := by
          have notDetected : call.action ≠ onPredatorDetected := fun same =>
            isNamed (same ▸ by decide)
          have notLeaving : call.action ≠ onPredatorLeavingPerimeter := fun same =>
            isNamed (same ▸ by decide)
          simp [flagAfter, notDetected, notLeaving]
        simp only [isNamed, if_false, List.map_cons, List.foldl_cons, unchanged]
        exact ih known

end Actions

/-- A mission with its default actions and anyone's listeners. -/
def program {σ Listener : Type} (variant : MissionVariant) (escalation : Duration)
    (listen : Listener → Snapshot → Routine σ Listener Unit) : Program σ Listener where
  definition := chart variant escalation
  registry := defaultActions
  listen

section Steps

variable {σ Listener : Type} {variant : MissionVariant} {escalation : Duration}
variable {listen : Listener → Snapshot → Routine σ Listener Unit} {post : Post}
variable {i : Interpreter Listener} {step : StepResult}

/-- An interpreter of a mission can be made. -/
theorem interpreter_mission (positive : escalation ≠ .zero) (limit : Option UInt64) :
    (program variant escalation listen).interpreter limit =
      .ok (.fresh (chart variant escalation) limit) := by
  have built : (spec variant escalation).build = .ok (chart variant escalation) :=
    build_spec positive
  have provides : (defaultActions : Registry σ Listener).Provides (chart variant escalation) := by
    have provided : ∀ {name}, name ∈ actionNames →
        ∃ action, (defaultActions : Registry σ Listener).action? name = some action :=
      fun isNamed => ⟨_, by rw [action?_defaultActions, if_pos isNamed]⟩
    refine ⟨fun {n name} uses => ?_, fun {n name} uses => ?_⟩
    · obtain ⟨ofState, ofCandidates⟩ := behaviour_chart n
      cases uses with
      | entry named => exact provided (ofState _ (List.mem_append_left _ named))
      | exit named => exact provided (ofState _ (List.mem_append_right _ named))
      | candidate declared isCandidate named =>
          exact provided (((ofCandidates _ declared).2 _ isCandidate).2 _ named)
      | delayed declared named =>
          obtain ⟨_, _, event, _, isTransition⟩ := delayed_chart declared
          rw [isTransition] at named
          exact provided (List.mem_singleton.1 named ▸ by decide)
    · cases uses with
      | candidate declared isCandidate named =>
          cases named.symm.trans (unguarded_chart n _ declared _ isCandidate)
      | delayed declared named =>
          cases named.symm.trans (MachineSpec.unguarded_of_build built _ declared)
  have valid : (program variant escalation listen).registry.validate
      (program variant escalation listen).definition = .ok () :=
    (Registry.validate_eq_ok_iff built).2 provides
  rw [Program.interpreter, valid]
  rfl

theorem begins_fresh (variant : MissionVariant)
    (listen : Listener → Snapshot → Routine σ Listener Unit) (positive : escalation ≠ .zero)
    (limit : Option UInt64) :
    (program variant escalation listen).Begins (.fresh (chart variant escalation) limit) :=
  .inl ⟨limit, interpreter_mission positive limit⟩

/-- An event that leads on has a plan to the next post, all of whose actions succeed. -/
theorem exists_performed (escalation : Duration)
    (listen : Listener → Snapshot → Routine σ Listener Unit) {next : Post} {event : String}
    {flag : Bool} (stands : i.configuration = post.active)
    (known : i.context.bool? predatorKey = some flag)
    (handled : post.next? variant event = some next) (memory : σ) :
    (chart variant escalation).select (defaultActions : Registry σ Listener).guard?
        i.configuration i.context event ≠ [] ∧
      ∃ plan context,
        (chart variant escalation).plan i.configuration ((chart variant escalation).select
          (defaultActions : Registry σ Listener).guard? i.configuration i.context event) = plan ∧
        plan.configuration = next.active ∧
        (program variant escalation listen).perform? event plan.invocations i.context [] memory =
          some (.ok (context, []), memory) ∧
        context.bool? predatorKey = some (flagOn event flag) := by
  rw [stands]
  obtain ⟨selected, reaches⟩ := reaches_next escalation
    (defaultActions : Registry σ Listener).guard? i.context handled
  obtain ⟨context, performs, isFlag⟩ := perform_defaultActions
    (program variant escalation listen) rfl event _ [] memory known
  exact ⟨selected, _, context, rfl, reaches.configuration, performs,
    isFlag.trans (congrArg some (reaches.flag flag))⟩

/-- Steps lead from post to post: on a signal, or where tracking escalates. -/
inductive Leads (variant : MissionVariant) : Post → String → Post → Prop
  | signal {post next : Post} {event : String} (handled : post.next? variant event = some next) :
      Leads variant post event next
  | escalation {event : String} (isTimed : variant = .timedEscalation) (unknown : event ∉ signals) :
      Leads variant .tracking event .countering

/-- A step from a post leads to the next, and keeps the flag as the event demands; or it is the
initial entry of the mission. -/
theorem leads_of_enacts (stands : i.configuration = post.active)
    (enacts : (program variant escalation listen).Enacts i step) :
    (step.event = initEvent ∧ step.plan.configuration = Post.off.active ∧
        step.context.bool? predatorKey = some false) ∨
      ∃ next, Leads variant post step.event next ∧ step.plan.configuration = next.active ∧
        ∀ flag, i.context.bool? predatorKey = some flag →
          step.context.bool? predatorKey = some (flagOn step.event flag) := by
  obtain ⟨context, memory, left, calls, performed⟩ := enacts
  -- what the actions leave is what the plan makes of the flag
  have flagged : ∀ flag, context.bool? predatorKey = some flag →
      step.context.bool? predatorKey = some (flagThrough step.plan flag) := by
    intro flag known
    obtain ⟨_, performedToo, isFlag⟩ := perform_defaultActions
      (program variant escalation listen) rfl step.event step.plan.invocations [] memory
      known
    obtain ⟨⟨rfl, _⟩, _⟩ : (_ ∧ _) ∧ _ := by simpa using performedToo.symm.trans performed
    exact isFlag
  obtain ⟨event, fired, recorded, plan, after, raised⟩ := step
  dsimp only at calls flagged ⊢
  cases calls with
  | start =>
      have isFlag := (tabulated variant).initial.2
      have samePlan := (retimes_chart variant escalation).initialPlan_eq
      left
      refine ⟨rfl, ?_, ?_⟩
      · exact initialConfiguration_chart variant escalation
      · rw [flagged false predator_initialContext]
        exact congrArg some ((congrArg (flagThrough · false) samePlan).trans isFlag)
  | @event _ transitions selected handled =>
      right
      rw [stands] at selected
      cases leads : post.next? variant event with
      | none => exact absurd (selected.symm.trans (select_eq_nil leads)) handled
      | some next =>
          have reaches : Reaches ((program variant escalation listen).definition.plan
              i.configuration transitions) next (flagOn event) := by
            rw [stands, ← selected]
            exact (reaches_next _ _ _ leads).2
          refine ⟨next, .signal leads, reaches.configuration, fun flag known => ?_⟩
          rw [flagged flag known, reaches.flag]
  | @timer key delayed generation isActive isDelayed =>
      right
      rw [stands] at isActive
      obtain ⟨isTimed, isTracking, event, unknown, isTransition⟩ :=
        delayed_chart (List.mem_of_getElem? isDelayed)
      rw [isTracking] at isActive
      obtain rfl := Post.tracking_of_active isActive
      rw [isTransition] at flagged ⊢
      have reaches : Reaches ((program variant escalation listen).definition.plan
          i.configuration [⟨event, 17, some 18, none, [onStartCounterAction]⟩]) .countering id := by
        rw [stands]
        exact reaches_countering event
      refine ⟨.countering, .escalation isTimed unknown, reaches.configuration,
        fun flag known => ?_⟩
      have notDetected : event ≠ predatorDetected := fun same => unknown (same ▸ by decide)
      have notLeaving : event ≠ predatorLeavingTrackingPerimeter :=
        fun same => unknown (same ▸ by decide)
      have unflagged := flagOn_of_ne notDetected notLeaving flag
      rw [flagged flag known, reaches.flag, unflagged]
      rfl

end Steps

end Mission

end Statechart
