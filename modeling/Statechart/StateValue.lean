import Statechart.Json.Raw
import Statechart.Path

/-!
# State values

An active configuration as nested keys: the key of an active leaf, or one entry per
active child. The regions of a value stand in key order.
-/

namespace Statechart

inductive StateValue
  | leaf (key : String)
  | nested (regions : List (String × StateValue))

namespace StateValue

instance : Inhabited StateValue := ⟨.leaf ""⟩

mutual
/-- The keys increase at every level. -/
def Ordered : StateValue → Prop
  | .leaf _ => True
  | .nested regions => Keyed.Increasing regions ∧ RegionsOrdered regions

def RegionsOrdered : List (String × StateValue) → Prop
  | [] => True
  | region :: rest => region.2.Ordered ∧ RegionsOrdered rest
end

mutual
def decEq : (a b : StateValue) → Decidable (a = b)
  | .leaf a, .leaf b =>
    if same : a = b then isTrue (by rw [same]) else isFalse (by simp [same])
  | .nested a, .nested b =>
    match decEqRegions a b with
    | isTrue same => isTrue (by rw [same])
    | isFalse different => isFalse (by simp [different])
  | .leaf _, .nested _ => isFalse nofun
  | .nested _, .leaf _ => isFalse nofun

def decEqRegions : (a b : List (String × StateValue)) → Decidable (a = b)
  | [], [] => isTrue rfl
  | [], _ :: _ => isFalse nofun
  | _ :: _, [] => isFalse nofun
  | (key, a) :: as, (other, b) :: bs =>
    if sameKey : key = other then
      match decEq a b, decEqRegions as bs with
      | isTrue same, isTrue rest => isTrue (by rw [sameKey, same, rest])
      | isFalse different, _ => isFalse (by simp [different])
      | _, isFalse different => isFalse (by simp [different])
    else isFalse (by simp [sameKey])
end

instance : DecidableEq StateValue := decEq

/-- Whether a path of keys is active; it may stop at any depth. -/
def matchesSegments : StateValue → List String → Bool
  | _, [] => true
  | .leaf key, segment :: rest => key == segment && rest.isEmpty
  | .nested regions, segment :: rest =>
    match regions.lookup segment with
    | some region => region.matchesSegments rest
    | none => false

def isAt (value : StateValue) (path : String) : Bool :=
  value.matchesSegments (Path.segments path)

def mainState? : StateValue → Option String
  | .leaf key => some key
  | .nested regions => regions.head?.map (·.1)

mutual
/-- The keys of the leaves below the top level. -/
def substates : StateValue → List String
  | .leaf _ => []
  | .nested regions => substatesOf regions

def substatesOf : List (String × StateValue) → List String
  | [] => []
  | (_, .leaf key) :: rest => key :: substatesOf rest
  | (_, .nested regions) :: rest => (StateValue.nested regions).substates ++ substatesOf rest
end

mutual
/-- The paths of the leaves, each below a given path. -/
def pathsBelow (path : String) : StateValue → List String
  | .leaf key => [Path.extend path key]
  | .nested [] => [path]
  | .nested (region :: rest) =>
    pathsBelow (Path.extend path region.1) region.2 ++ pathsOfRegions path rest

def pathsOfRegions (path : String) : List (String × StateValue) → List String
  | [] => []
  | region :: rest =>
    pathsBelow (Path.extend path region.1) region.2 ++ pathsOfRegions path rest
end

def leafPaths (value : StateValue) : List String := value.pathsBelow ""

mutual
def toJson : StateValue → Json
  | .leaf key => .string key
  | .nested regions => .object (regionsToJson regions)

def regionsToJson : List (String × StateValue) → List (String × Json)
  | [] => []
  | region :: rest => (region.1, region.2.toJson) :: regionsToJson rest
end

mutual
/-- A string is a leaf and an object is nested; nothing else is a state value. -/
def ofJson? : Json → Option StateValue
  | .string key => some (.leaf key)
  | .object fields => (regionsOfJson? fields).map fun regions => .nested (Keyed.sort regions)
  | _ => none

def regionsOfJson? : List (String × Json) → Option (List (String × StateValue))
  | [] => some []
  | field :: rest => do
    let region ← ofJson? field.2
    let regions ← regionsOfJson? rest
    return (field.1, region) :: regions
end

def ofText? (text : String) : Option StateValue := (Json.ofText? text).bind ofJson?

end StateValue

end Statechart
