/-!
# Universally unique identifiers

Written in lower-case hexadecimal digits with four hyphens. Read, the hyphens may be
left out, and the form with hyphens may stand in braces or after `urn:uuid:`. Upper and
lower case are alike throughout.
-/

namespace Statechart

structure Uuid where
  bits : BitVec 128
  deriving DecidableEq

namespace Uuid

instance : Inhabited Uuid := ⟨⟨0⟩⟩

def hexDigit? (c : Char) : Option Nat :=
  if '0' ≤ c ∧ c ≤ '9' then some (c.toNat - '0'.toNat)
  else if 'a' ≤ c ∧ c ≤ 'f' then some (c.toNat - 'a'.toNat + 10)
  else if 'A' ≤ c ∧ c ≤ 'F' then some (c.toNat - 'A'.toNat + 10)
  else none

/-- The identifier with 32 given digits. -/
def ofDigits? (text : List Char) : Option Uuid := do
  let digits ← text.mapM hexDigit?
  if digits.length = 32 then
    return ⟨.ofNat 128 (digits.foldl (fun value d => value * 16 + d) 0)⟩
  else none

def hyphenPlaces : List Nat := [8, 13, 18, 23]

def ofHyphenated? (text : List Char) : Option Uuid :=
  if text.length = 36 ∧ hyphenPlaces.all fun place => text[place]? == some '-' then
    ofDigits? <| (text.zipIdx.filter fun entry => !hyphenPlaces.contains entry.2).map (·.1)
  else none

def urn : List Char := "urn:uuid:".toList

def ofText? (text : String) : Option Uuid :=
  let chars := text.toList
  if chars.length = 32 then ofDigits? chars
  else if chars.length = 36 then ofHyphenated? chars
  else if chars.length = 38 ∧ chars.head? = some '\x7b' ∧ chars.getLast? = some '\x7d' then
    ofHyphenated? ((chars.drop 1).take 36)
  else if chars.length = 45 ∧ (chars.take 9).map Char.toLower = urn then
    ofHyphenated? (chars.drop 9)
  else none

/-- A number of hexadecimal digits, the last ones of a number. -/
def digits : Nat → Nat → List Char
  | 0, _ => []
  | count + 1, n => digits count (n / 16) ++ [Nat.digitChar (n % 16)]

def text (id : Uuid) : String :=
  let all := digits 32 id.bits.toNat
  String.ofList <|
    all.take 8 ++ '-' :: (all.drop 8).take 4 ++ '-' :: (all.drop 12).take 4 ++
    '-' :: (all.drop 16).take 4 ++ '-' :: all.drop 20

end Uuid

end Statechart
