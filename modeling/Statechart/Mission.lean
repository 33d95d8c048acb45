import Statechart.Definition.Build
import Statechart.Mission.Actions
import Statechart.Mission.Signals

/-!
# The mission

A drone guards sheep against predators. In one variant everything is driven by signals;
in the other, tracking a predator escalates to counteraction after a delay, and two
ways out of tracking and counteraction lead elsewhere.
-/

namespace Statechart

inductive MissionVariant
  | eventDriven
  | timedEscalation
  deriving DecidableEq, Inhabited

namespace MissionVariant

def name : MissionVariant → String
  | .eventDriven => "event_driven"
  | .timedEscalation => "timed_escalation"

def ofName? (name : String) : Option MissionVariant :=
  if name = "event_driven" then some .eventDriven
  else if name = "timed_escalation" then some .timedEscalation
  else none

/-- The variant that a text names, with hyphens for underscores if one likes; otherwise
why there is none. -/
def ofText (text : String) : Except String MissionVariant :=
  let name := String.ofList (text.toList.map fun c => if c = '-' then '_' else c)
  match ofName? name with
  | some variant => .ok variant
  | none => .error s!"unknown mission variant '{name}'"

end MissionVariant

namespace Mission

def machineId : String := "pastureSentinel"

/-- How long tracking lasts before it escalates, unless told otherwise. -/
def defaultEscalation : Duration := .ofMillis 2000

def initialContext : Context :=
  .ofList [("battery", .ofInt64 100), ("sheepCount", .ofInt64 5), (predatorKey, .bool false),
    ("connectionStatus", .string "disconnected")]

def step (target action : String) : TransitionSpec :=
  (TransitionSpec.leadingTo target).action action

def logged : StateSpec := StateSpec.atomic.onEntry logStateEntry

/-- A region with a single state. -/
def watched (key : String) : StateSpec := (StateSpec.compound key).child key logged

def undeployed : StateSpec :=
  StateSpec.compound "Off"
    |>.child "Off" (logged.candidate startSoi (step "Unconfigured" onStartSoi))
    |>.child "Unconfigured"
      (logged.candidate flightPlan (step "Configured" onFlightPlanReceived)
        |>.candidate flightPlanCheckFailed (step "Unconfigured" onFlightPlanFailed))
    |>.child "Configured"
      (logged.candidate readyForMission (step "Ready for Mission" onReadyForMission))
    |>.child "Ready for Mission"
      (logged.candidate startSheepGuardMission (step "#pastureSentinel.Deployed" onMissionStart))

def tracking (variant : MissionVariant) (escalation : Duration) : StateSpec :=
  let common := logged.candidate predatorEnteringSafeArea
    (step "Predator counteraction" onPredatorEnteringSafeArea)
  match variant with
  | .eventDriven => common
  | .timedEscalation =>
    common.delayed ((DelayedSpec.after escalation "Predator counteraction").action
        onStartCounterAction)
      |>.candidate predatorLeavingTrackingPerimeter
        (step "#pastureSentinel.Deployed.Monitoring" onPredatorLeavingPerimeter)

def counteraction (variant : MissionVariant) : StateSpec :=
  let back :=
    match variant with
    | .eventDriven => "Predator tracking"
    | .timedEscalation => "#pastureSentinel.Deployed.Main.Patrolling"
  logged.candidate predatorLeavingSafeArea (step back onPredatorLeavingSafeArea)

def predatorStates (variant : MissionVariant) (escalation : Duration) : StateSpec :=
  (StateSpec.compound "Predator tracking").onEntry logStateEntry
    |>.candidate predatorLeavingTrackingPerimeter (step "Patrolling" onPredatorLeavingPerimeter)
    |>.child "Predator tracking" (tracking variant escalation)
    |>.child "Predator counteraction" (counteraction variant)

def patrolling : StateSpec :=
  StateSpec.parallel.onEntry logStateEntry
    |>.candidate predatorDetected (step "Predator Detected" onPredatorDetected)
    |>.child "Perimeter" (watched "Perimeter watch")
    |>.child "Sheep" (watched "Sheep Monitoring")
    |>.child "Predator" (watched "Predator Monitoring")

def deployed (variant : MissionVariant) (escalation : Duration) : StateSpec :=
  let main := StateSpec.compound "Going to Safe Area"
    |>.child "Going to Safe Area"
      (logged.candidate startPatrolling (step "Patrolling" onStartPatrolling))
    |>.child "Patrolling" patrolling
    |>.child "Predator Detected" (predatorStates variant escalation)
  StateSpec.parallel.onEntry onDeployed
    |>.candidate crashedDetected (step "Crashed" onCrashed)
    |>.child "Main" main
    |>.child "Monitoring" (watched "Mission Monitoring")

def spec (variant : MissionVariant) (escalation : Duration) : MachineSpec :=
  (MachineSpec.named machineId).withContext initialContext
    |>.startingIn "Undeployed"
    |>.child "Undeployed" undeployed
    |>.child "Deployed" (deployed variant escalation)
    |>.child "Crashed" (StateSpec.final.onEntry logStateEntry)

end Mission

end Statechart
