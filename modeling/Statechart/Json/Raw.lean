import Statechart.Json.Basic
import Statechart.Json.Token

/-!
# JSON text as a tree

The tree of a text whose numerals and strings are not evaluated yet. A part of a
text that nobody asks for stays like this, so it may hold a numeral too large for
any number, half a surrogate pair, or any depth of nesting. A part that is asked
for is evaluated, and then none of these is allowed.
-/

namespace Statechart.Json

inductive Raw
  | null
  | bool (value : Bool)
  | number (value : Numeral)
  | string (value : Quoted)
  | array (items : List Raw)
  | object (fields : List (Quoted × Raw))

namespace Raw

/-- An array or object whose end has not been read; what it holds is in reverse. -/
inductive Frame
  | array (itemsReverse : List Raw)
  | object (fieldsReverse : List (Quoted × Raw)) (key : Quoted)

/-- What a reader of tokens has just met or waits for, with the unfinished frames,
innermost first. -/
inductive Reader
  | beforeValue (frames : List Frame)
  | arrayOpened (frames : List Frame)
  | objectOpened (frames : List Frame)
  | beforeKey (fieldsReverse : List (Quoted × Raw)) (frames : List Frame)
  | beforeColon (fieldsReverse : List (Quoted × Raw)) (key : Quoted) (frames : List Frame)
  | afterValue (value : Raw) (frames : List Frame)

namespace Reader

/-- A token at the place of a value. -/
def begin (frames : List Frame) : Token → Option Reader
  | .null => some (.afterValue .null frames)
  | .bool value => some (.afterValue (.bool value) frames)
  | .number value => some (.afterValue (.number value) frames)
  | .string value => some (.afterValue (.string value) frames)
  | .openArray => some (.arrayOpened frames)
  | .openObject => some (.objectOpened frames)
  | _ => none

def step : Reader → Token → Option Reader
  | .beforeValue frames, token => begin frames token
  | .arrayOpened frames, .closeArray => some (.afterValue (.array []) frames)
  | .arrayOpened frames, token => begin (.array [] :: frames) token
  | .objectOpened frames, .closeObject => some (.afterValue (.object []) frames)
  | .objectOpened frames, .string key => some (.beforeColon [] key frames)
  | .beforeKey fields frames, .string key => some (.beforeColon fields key frames)
  | .beforeColon fields key frames, .colon => some (.beforeValue (.object fields key :: frames))
  | .afterValue value (.array items :: frames), .comma =>
    some (.beforeValue (.array (value :: items) :: frames))
  | .afterValue value (.array items :: frames), .closeArray =>
    some (.afterValue (.array (value :: items).reverse) frames)
  | .afterValue value (.object fields key :: frames), .comma =>
    some (.beforeKey ((key, value) :: fields) frames)
  | .afterValue value (.object fields key :: frames), .closeObject =>
    some (.afterValue (.object ((key, value) :: fields).reverse) frames)
  | _, _ => none

def run (reader : Reader) : List Token → Option Reader
  | [] => some reader
  | token :: rest =>
    match reader.step token with
    | some next => next.run rest
    | none => none

end Reader

def ofTokens? (tokens : List Token) : Option Raw :=
  match (Reader.beforeValue []).run tokens with
  | some (.afterValue value []) => some value
  | _ => none

def ofText? (text : String) : Option Raw := (tokens? text.toList).bind ofTokens?

mutual
/-- The value of a tree that nests at most `depth` deep. -/
def eval? (depth : Nat) : Raw → Option Json
  | .null => some .null
  | .bool value => some (.bool value)
  | .number value => value.number?.map .number
  | .string value => value.string?.map .string
  | .array items =>
    match depth with
    | 0 => none
    | below + 1 => (evalItems? below items).map .array
  | .object fields =>
    match depth with
    | 0 => none
    | below + 1 => (evalFields? below fields).map .object

def evalItems? (depth : Nat) : List Raw → Option (List Json)
  | [] => some []
  | item :: rest => do
    let value ← item.eval? depth
    let values ← evalItems? depth rest
    return value :: values

def evalFields? (depth : Nat) : List (Quoted × Raw) → Option (List (String × Json))
  | [] => some []
  | field :: rest => do
    let key ← field.1.string?
    let value ← field.2.eval? depth
    let values ← evalFields? depth rest
    return (key, value) :: values
end

end Raw

def depthLimit : Nat := 127

def ofText? (text : String) : Option Json := (Raw.ofText? text).bind (Raw.eval? depthLimit)

end Statechart.Json
