/-!
# Dotted paths

A path is cut before and after every dot, so it always has one segment more than
dots, and segments may be empty.
-/

namespace Statechart.Path

def split : List Char → List (List Char)
  | [] => [[]]
  | c :: rest =>
    if c = '.' then [] :: split rest
    else
      match split rest with
      | [] => [[c]]
      | segment :: segments => (c :: segment) :: segments

def segments (path : String) : List String := (split path.toList).map String.ofList

/-- A path with one more segment; a path without text has no segment yet. -/
def extend (path key : String) : String := if path.isEmpty then key else path ++ "." ++ key

/-- The ways to cut a text before one of its dots, the longest front first: each front
with the rest after the dot. -/
def cuts : List Char → List (List Char × List Char)
  | [] => []
  | c :: rest =>
    let later := (cuts rest).map fun (front, back) => (c :: front, back)
    if c = '.' then later ++ [([], rest)] else later

end Statechart.Path
