import Statechart.Json.Number

/-!
# The tokens of JSON text

One pass over the characters. A string token keeps its escaped code units apart,
because two of them may together name one character, and some name none.
-/

namespace Statechart.Json

/-- A piece of a quoted string: a character, or an escaped 16-bit code unit. -/
inductive Piece
  | char (value : Char)
  | unit (value : Nat)
  deriving DecidableEq

abbrev Quoted := List Piece

namespace Quoted

def isLead (unit : Nat) : Bool := 0xD800 ≤ unit && unit < 0xDC00

def isTrail (unit : Nat) : Bool := 0xDC00 ≤ unit && unit < 0xE000

/-- The character that a lead and a trail unit name together. -/
def pair (lead trail : Nat) : Char :=
  Char.ofNat (0x10000 + (lead - 0xD800) * 0x400 + (trail - 0xDC00))

/-- The characters of a quoted string; nothing when half a pair stands alone. -/
def chars? : Quoted → Option (List Char)
  | [] => some []
  | .char c :: rest => (chars? rest).map (c :: ·)
  | .unit lead :: .unit trail :: rest =>
    if isLead lead then
      if isTrail trail then (chars? rest).map (pair lead trail :: ·) else none
    else if isTrail lead then none
    else (chars? (.unit trail :: rest)).map (Char.ofNat lead :: ·)
  | .unit unit :: rest =>
    if isLead unit || isTrail unit then none
    else (chars? rest).map (Char.ofNat unit :: ·)

def string? (quoted : Quoted) : Option String := (chars? quoted).map String.ofList

end Quoted

inductive Token
  | openArray
  | closeArray
  | openObject
  | closeObject
  | comma
  | colon
  | null
  | bool (value : Bool)
  | number (value : Numeral)
  | string (value : Quoted)
  deriving DecidableEq

/-- Where a pass over the characters stands; what is half read is kept in reverse. -/
inductive Scan
  | between
  | word (lettersReverse : List Char)
  | numeral (charsReverse : List Char)
  | quoted (piecesReverse : Quoted)
  | escaped (piecesReverse : Quoted)
  | unit (piecesReverse : Quoted) (count value : Nat)

namespace Scan

def isBlank (c : Char) : Bool := c = ' ' || c = '\t' || c = '\n' || c = '\r'

def isLetter (c : Char) : Bool := 'a' ≤ c && c ≤ 'z'

def isNumeric (c : Char) : Bool :=
  ('0' ≤ c && c ≤ '9') || c = '-' || c = '+' || c = '.' || c = 'e' || c = 'E'

def hexValue? (c : Char) : Option Nat :=
  if '0' ≤ c ∧ c ≤ '9' then some (c.toNat - '0'.toNat)
  else if 'a' ≤ c ∧ c ≤ 'f' then some (c.toNat - 'a'.toNat + 10)
  else if 'A' ≤ c ∧ c ≤ 'F' then some (c.toNat - 'A'.toNat + 10)
  else none

def word? (letters : List Char) : Option Token :=
  if letters = "null".toList then some .null
  else if letters = "true".toList then some (.bool true)
  else if letters = "false".toList then some (.bool false)
  else none

def mark? (c : Char) : Option Token :=
  if c = '[' then some .openArray
  else if c = ']' then some .closeArray
  else if c = '\x7b' then some .openObject
  else if c = '\x7d' then some .closeObject
  else if c = ',' then some .comma
  else if c = ':' then some .colon
  else none

/-- The character that a letter after a backslash stands for. -/
def escape? (c : Char) : Option Char :=
  if c = '"' ∨ c = '\\' ∨ c = '/' then some c
  else if c = 'b' then some '\x08'
  else if c = 'f' then some '\x0c'
  else if c = 'n' then some '\n'
  else if c = 'r' then some '\r'
  else if c = 't' then some '\t'
  else none

/-- A character that starts something new, and the token it is on its own. -/
def start (c : Char) : Option (Option Token × Scan) :=
  if isBlank c then some (none, .between)
  else if c = '"' then some (none, .quoted [])
  else if isLetter c then some (none, .word [c])
  else if isNumeric c then some (none, .numeral [c])
  else (mark? c).map fun token => (some token, .between)

/-- The tokens a character completes, latest first, and where the pass stands then. -/
def feed (c : Char) : Scan → Option (List Token × Scan)
  | .between => (start c).map fun (token, next) => (token.toList, next)
  | .word letters =>
    if isLetter c then some ([], .word (c :: letters))
    else do
      let done ← word? letters.reverse
      let (token, next) ← start c
      return (token.toList ++ [done], next)
  | .numeral chars =>
    if isNumeric c then some ([], .numeral (c :: chars))
    else do
      let done ← Numeral.ofText? chars.reverse
      let (token, next) ← start c
      return (token.toList ++ [.number done], next)
  | .quoted pieces =>
    if c = '"' then some ([.string pieces.reverse], .between)
    else if c = '\\' then some ([], .escaped pieces)
    else if c.toNat < 0x20 then none
    else some ([], .quoted (.char c :: pieces))
  | .escaped pieces =>
    if c = 'u' then some ([], .unit pieces 0 0)
    else (escape? c).map fun char => ([], .quoted (.char char :: pieces))
  | .unit pieces count value => do
    let digit ← hexValue? c
    let value := value * 16 + digit
    if count = 3 then return ([], .quoted (.unit value :: pieces))
    else return ([], .unit pieces (count + 1) value)

/-- The tokens that the end of the text completes. -/
def finish? : Scan → Option (List Token)
  | .between => some []
  | .word letters => (word? letters.reverse).map ([·])
  | .numeral chars => (Numeral.ofText? chars.reverse).map ([.number ·])
  | .quoted _ | .escaped _ | .unit _ _ _ => none

/-- Reads the rest of a text, with the tokens so far in reverse. -/
def run (scan : Scan) (tokensReverse : List Token) : List Char → Option (List Token)
  | [] => scan.finish?.map fun last => (last ++ tokensReverse).reverse
  | c :: rest =>
    match scan.feed c with
    | some (tokens, next) => next.run (tokens ++ tokensReverse) rest
    | none => none

end Scan

def tokens? (text : List Char) : Option (List Token) := Scan.between.run [] text

end Statechart.Json
