/-!
# The signals of the mission
-/

namespace Statechart.Mission

def startSoi : String := "Start SOI"
def flightPlan : String := "FlightPlan"
def flightPlanCheckFailed : String := "FlightPlan Check Failed"
def readyForMission : String := "Ready for mission"
def startSheepGuardMission : String := "Start Sheep Guard Mission"
def startPatrolling : String := "Start Patrolling"
def predatorDetected : String := "Predator Detected inside tracking perimeter"
def predatorEnteringSafeArea : String := "Predator Entering Safe Area"
def predatorLeavingSafeArea : String := "Predator Leaving Safe Area"
def predatorLeavingTrackingPerimeter : String := "Predator Leaving Tracking Perimeter"
def crashedDetected : String := "Crashed Detected"

def signals : List String :=
  [startSoi, flightPlan, flightPlanCheckFailed, readyForMission, startSheepGuardMission,
    startPatrolling, predatorDetected, predatorEnteringSafeArea, predatorLeavingSafeArea,
    predatorLeavingTrackingPerimeter, crashedDetected]

def isKnown (signal : String) : Bool := signals.contains signal

end Statechart.Mission
