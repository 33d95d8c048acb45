import Statechart.Json.Binary64

/-!
# Numbers and numerals

A numeral is the text of a number, split at its point and its exponent. It names
an integer when it has neither and fits a 64-bit word, signed or unsigned;
otherwise it names a binary64 number. The conversion to binary64 takes as many
leading digits as fit an unsigned word and scales them by a power of ten, so the
last bit is not always the nearest one.
-/

namespace Statechart.Json

/-- The integers of a signed or an unsigned 64-bit word. -/
def InWordRange (i : Int) : Prop :=
  -9_223_372_036_854_775_808 ≤ i ∧ i < 18_446_744_073_709_551_616

instance (i : Int) : Decidable (InWordRange i) := inferInstanceAs (Decidable (_ ∧ _))

inductive Number
  | integer (value : Int) (inRange : InWordRange value)
  | real (value : Binary64)
  deriving DecidableEq

namespace Number

def ofInt? (i : Int) : Option Number :=
  if inRange : InWordRange i then some (.integer i inRange) else none

def ofInt64 (i : Int64) : Number :=
  .integer i.toInt ⟨by have := i.le_toInt; omega, by have := i.toInt_lt; omega⟩

def ofUInt64 (n : UInt64) : Number :=
  .integer n.toNat ⟨by have := n.toNat_lt; omega, by have := n.toNat_lt; omega⟩

/-- The value of an integer that fits a signed word. -/
def int64? : Number → Option Int64
  | .integer i _ => if i < 9_223_372_036_854_775_808 then some (Int64.ofInt i) else none
  | .real _ => none

/-- The value of an integer that fits an unsigned word of `width` bits. -/
def unsigned? (width : Nat) : Number → Option Nat
  | .integer i _ => if 0 ≤ i ∧ i.toNat < Nat.pow 2 width then some i.toNat else none
  | .real _ => none

/-- Equality as numbers of one kind: an integer never equals a binary64 number. -/
def same : Number → Number → Bool
  | .integer i _, .integer j _ => i == j
  | .real x, .real y => x.same y
  | _, _ => false

def text : Number → List Char
  | .integer i _ => Binary64.integerText i
  | .real x => x.text

end Number

/-- The text of a number: digits before the point, after it, and a signed exponent. -/
structure Numeral where
  negative : Bool
  whole : List Nat
  fraction : Option (List Nat)
  exponent : Option (Bool × List Nat)
  deriving DecidableEq

namespace Numeral

def digit? (c : Char) : Option Nat :=
  if '0' ≤ c ∧ c ≤ '9' then some (c.toNat - '0'.toNat) else none

/-- The digits at the front of a text, and the rest. -/
def splitDigits : List Char → List Nat × List Char
  | [] => ([], [])
  | c :: rest =>
    match digit? c with
    | some d => let (digits, tail) := splitDigits rest; (d :: digits, tail)
    | none => ([], c :: rest)

/-- Whole digits have no zero in front. -/
def wholeAllowed : List Nat → Bool
  | [] => false
  | [_] => true
  | first :: _ => first != 0

/-- The fraction at the front of a text, if a point stands there. -/
def splitFraction? : List Char → Option (Option (List Nat) × List Char)
  | '.' :: rest =>
    match splitDigits rest with
    | ([], _) => none
    | (digits, tail) => some (some digits, tail)
  | rest => some (none, rest)

def splitSign : List Char → Bool × List Char
  | '-' :: rest => (true, rest)
  | '+' :: rest => (false, rest)
  | rest => (false, rest)

/-- The exponent that makes up the rest of a text, if there is one. -/
def exponentOf? : List Char → Option (Option (Bool × List Nat))
  | [] => some none
  | c :: rest =>
    if c = 'e' ∨ c = 'E' then
      let (negative, rest) := splitSign rest
      match splitDigits rest with
      | ([], _) => none
      | (digits, []) => some (some (negative, digits))
      | _ => none
    else none

def unsignedOf? (negative : Bool) (text : List Char) : Option Numeral := do
  let (whole, text) := splitDigits text
  if wholeAllowed whole then
    let (fraction, text) ← splitFraction? text
    let exponent ← exponentOf? text
    return ⟨negative, whole, fraction, exponent⟩
  else none

def ofText? : List Char → Option Numeral
  | '-' :: text => unsignedOf? true text
  | text => unsignedOf? false text

def wordMax : Nat := 18_446_744_073_709_551_615

/-- Appends digits to a value while it fits an unsigned word; returns the digits left. -/
def absorb (value : Nat) : List Nat → Nat × List Nat
  | [] => (value, [])
  | d :: rest =>
    if value * 10 + d ≤ wordMax then absorb (value * 10 + d) rest else (value, d :: rest)

def valueOf (digits : List Nat) : Nat := digits.foldl (fun value d => value * 10 + d) 0

/-- The largest power of ten below infinity. -/
def topPower : Nat := 308

def tenTo (power : Nat) : Float := Float.ofScientific 1 false power

/-- Divides by a power of ten, in steps no larger than the top power. -/
def scaleDown (x : Float) (power : Nat) : Float :=
  if power ≤ topPower then x / tenTo power
  else if x == 0 then x
  else scaleDown (x / tenTo topPower) (power - topPower)
termination_by power
decreasing_by simp only [topPower] at *; omega

/-- A word times a power of ten; nothing when it overflows. -/
def scaled? (value : Nat) (power : Int) : Option Float :=
  let x := (UInt64.ofNat value).toFloat
  if power < 0 then some (scaleDown x (-power).toNat)
  else if power ≤ topPower then
    let product := x * tenTo power.toNat
    if product.isInf then none else some product
  else if x == 0 then some x
  else none

def exponentMax : Nat := 2_147_483_647

/-- A word times a power of ten, with the written exponent added to the power. -/
def withExponent? (value : Nat) (power : Int) : Option (Bool × List Nat) → Option Float
  | none => scaled? value power
  | some (negative, digits) =>
    let written := valueOf digits
    if exponentMax < written then
      if value ≠ 0 ∧ ¬ negative then none else some 0
    else scaled? value (if negative then power - written else power + written)

def magnitude? (n : Numeral) : Option Float :=
  let (value, left) := absorb 0 n.whole
  match n.fraction with
  | none => withExponent? value left.length n.exponent
  | some digits =>
    let (value, unread) := absorb value digits
    let power : Int := (left.length : Int) - (digits.length - unread.length : Nat)
    withExponent? value power n.exponent

/-- The integer a numeral spells, if it has no point and no exponent. -/
def integer? (n : Numeral) : Option Int :=
  match n.fraction, n.exponent with
  | none, none =>
    let value := valueOf n.whole
    if n.negative then if value = 0 then none else some (-value) else some value
  | _, _ => none

/-- The number a numeral names; nothing when it is too large. -/
def number? (n : Numeral) : Option Number :=
  match n.integer?.bind Number.ofInt? with
  | some number => some number
  | none => do
    let x ← n.magnitude?
    return .real (.ofFloat (if n.negative then -x else x))

end Numeral

end Statechart.Json
