import Statechart.Routine

/-!
# The actions of the mission

By default they keep one flag of the context current: whether a predator is being
tracked or countered.
-/

namespace Statechart.Mission

def logStateEntry : String := "logStateEntry"
def onStartSoi : String := "onStartSOI"
def onFlightPlanReceived : String := "onFlightPlanReceived"
def onFlightPlanFailed : String := "onFlightPlanFailed"
def onReadyForMission : String := "onReadyForMission"
def onMissionStart : String := "onMissionStart"
def onDeployed : String := "onDeployed"
def onStartPatrolling : String := "onStartPatrolling"
def onPredatorDetected : String := "onPredatorDetected"
def onStartCounterAction : String := "onStartCounterAction"
def onPredatorEnteringSafeArea : String := "onPredatorEnteringSafeArea"
def onPredatorLeavingSafeArea : String := "onPredatorLeavingSafeArea"
def onPredatorLeavingPerimeter : String := "onPredatorLeavingPerimeter"
def onCrashed : String := "onCrashed"

def actionNames : List String :=
  [logStateEntry, onStartSoi, onFlightPlanReceived, onFlightPlanFailed, onReadyForMission,
    onMissionStart, onDeployed, onStartPatrolling, onPredatorDetected, onStartCounterAction,
    onPredatorEnteringSafeArea, onPredatorLeavingSafeArea, onPredatorLeavingPerimeter, onCrashed]

def predatorKey : String := "predatorDetected"

variable {σ Listener : Type}

def announce : Action σ Listener := fun call => .done (.ok { context := call.context })

def setPredator (flag : Bool) : Action σ Listener := fun call =>
  .done (.ok { context := call.context.set predatorKey (.bool flag) })

def actionOf (name : String) : Action σ Listener :=
  if name = onPredatorDetected then setPredator true
  else if name = onPredatorLeavingPerimeter then setPredator false
  else announce

def defaultActions : Registry σ Listener :=
  actionNames.foldl (fun registry name => registry.withAction name (actionOf name)) {}

end Statechart.Mission
