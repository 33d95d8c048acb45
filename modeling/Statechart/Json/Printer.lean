import Statechart.Json.Basic

/-!
# Writing JSON

Two layouts of one text: without any blanks, and indented by two blanks a level.
Only quotes, backslashes and control characters are escaped.
-/

namespace Statechart.Json

def hexDigit (n : Nat) : Char := (Nat.toDigits 16 (n % 16)).headD '0'

def escape (c : Char) : List Char :=
  if c = '"' then ['\\', '"']
  else if c = '\\' then ['\\', '\\']
  else if c = '\x08' then ['\\', 'b']
  else if c = '\x0c' then ['\\', 'f']
  else if c = '\n' then ['\\', 'n']
  else if c = '\r' then ['\\', 'r']
  else if c = '\t' then ['\\', 't']
  else if c.toNat < 0x20 then
    ['\\', 'u', '0', '0', hexDigit (c.toNat / 16), hexDigit c.toNat]
  else [c]

def quote (s : String) : List Char := '"' :: s.toList.flatMap escape ++ ['"']

def wordText (value : Bool) : List Char := if value then "true".toList else "false".toList

mutual
def compactText : Json → List Char
  | .null => "null".toList
  | .bool value => wordText value
  | .number value => value.text
  | .string value => quote value
  | .array [] => ['[', ']']
  | .array (item :: rest) => '[' :: (compactText item ++ compactItems rest ++ [']'])
  | .object [] => ['\x7b', '\x7d']
  | .object (field :: rest) =>
    '\x7b' :: (quote field.1 ++ ':' :: compactText field.2 ++ compactFields rest ++ ['\x7d'])

/-- The items after the first, each with its comma. -/
def compactItems : List Json → List Char
  | [] => []
  | item :: rest => ',' :: (compactText item ++ compactItems rest)

def compactFields : List (String × Json) → List Char
  | [] => []
  | field :: rest =>
    ',' :: (quote field.1 ++ ':' :: compactText field.2 ++ compactFields rest)
end

def compact (value : Json) : String := String.ofList value.compactText

def newLine (level : Nat) : List Char := '\n' :: List.replicate (2 * level) ' '

mutual
/-- The indented text of a value at a level. -/
def prettyText (level : Nat) : Json → List Char
  | .null => "null".toList
  | .bool value => wordText value
  | .number value => value.text
  | .string value => quote value
  | .array [] => ['[', ']']
  | .array (item :: rest) =>
    '[' :: (newLine (level + 1) ++ prettyText (level + 1) item ++
      prettyItems (level + 1) rest ++ newLine level ++ [']'])
  | .object [] => ['\x7b', '\x7d']
  | .object (field :: rest) =>
    '\x7b' :: (newLine (level + 1) ++ quote field.1 ++ ':' :: ' ' ::
      prettyText (level + 1) field.2 ++ prettyFields (level + 1) rest ++
      newLine level ++ ['\x7d'])

def prettyItems (level : Nat) : List Json → List Char
  | [] => []
  | item :: rest => ',' :: (newLine level ++ prettyText level item ++ prettyItems level rest)

def prettyFields (level : Nat) : List (String × Json) → List Char
  | [] => []
  | field :: rest =>
    ',' :: (newLine level ++ quote field.1 ++ ':' :: ' ' :: prettyText level field.2 ++
      prettyFields level rest)
end

def pretty (value : Json) : String := String.ofList (value.prettyText 0)

end Statechart.Json
