/-!
# Binary64 numbers as decimals

A finite binary64 number is written with the fewest digits that read back as the
same number, and of those the nearest. The digits are found in exact integer
arithmetic: on each decimal grid only the two neighbours of the number matter.
-/

namespace Statechart.Json

/-- A finite binary64 number, by its bits. -/
structure Binary64 where
  bits : UInt64
  deriving DecidableEq

namespace Binary64

def ofFloat (x : Float) : Binary64 := ⟨x.toBits⟩

def toFloat (x : Binary64) : Float := Float.ofBits x.bits

/-- Equality of the numbers: the two zeros agree. -/
def same (x y : Binary64) : Bool := x.toFloat == y.toFloat

def negative (x : Binary64) : Bool := x.bits.toNat / Nat.pow 2 63 == 1

def exponentField (x : Binary64) : Nat := x.bits.toNat / Nat.pow 2 52 % Nat.pow 2 11

def fractionField (x : Binary64) : Nat := x.bits.toNat % Nat.pow 2 52

def isZero (x : Binary64) : Bool := x.exponentField == 0 && x.fractionField == 0

/-- The integer that, times two to the `exponent`, is the absolute value. -/
def significand (x : Binary64) : Nat :=
  if x.exponentField = 0 then x.fractionField else Nat.pow 2 52 + x.fractionField

def exponent (x : Binary64) : Int :=
  (if x.exponentField = 0 then 1 else x.exponentField : Int) - 1075

/-- A decimal with all its significant digits: their value times ten to the exponent. -/
structure Decimal where
  digits : Nat
  exponent : Int
  deriving DecidableEq

def Decimal.strip (d : Decimal) : Decimal :=
  if d.digits = 0 then d
  else if d.digits % 10 = 0 then strip ⟨d.digits / 10, d.exponent + 1⟩
  else d
termination_by d.digits
decreasing_by omega

/-- The absolute value and the interval that rounds to it, in quarters of the unit
in the last place, over a common denominator. -/
structure Window where
  low : Nat
  value : Nat
  high : Nat
  denominator : Nat
  /-- The ends themselves round to the number. -/
  closed : Bool

def window (x : Binary64) : Window :=
  let quarters := 4 * x.significand
  let below := if x.fractionField = 0 ∧ 1 < x.exponentField then 1 else 2
  let scale := x.exponent - 2
  let up := Nat.pow 2 scale.toNat
  { low := (quarters - below) * up
    value := quarters * up
    high := (quarters + 2) * up
    denominator := Nat.pow 2 (-scale).toNat
    closed := x.significand % 2 == 0 }

/-- Whether `count` units of ten to the `exponent` lie in the window. -/
def Window.holds (w : Window) (count : Nat) (exponent : Int) : Bool :=
  let point := count * Nat.pow 10 exponent.toNat * w.denominator
  let low := w.low * Nat.pow 10 (-exponent).toNat
  let high := w.high * Nat.pow 10 (-exponent).toNat
  if w.closed then low ≤ point && point ≤ high else low < point && point < high

/-- The best point of the grid with step ten to the `exponent`, if one is in the
window: the nearer neighbour of the value, an exact tie to the even one. -/
def Window.onGrid? (w : Window) (exponent : Int) : Option Decimal :=
  let numerator := w.value * Nat.pow 10 (-exponent).toNat
  let step := w.denominator * Nat.pow 10 exponent.toNat
  let down := numerator / step
  let twice := 2 * (numerator % step)
  let nearerDown := twice < step || (twice == step && down % 2 == 0)
  let first := if nearerDown then down else down + 1
  let second := if nearerDown then down + 1 else down
  if w.holds first exponent then some ⟨first, exponent⟩
  else if w.holds second exponent then some ⟨second, exponent⟩
  else none

/-- The exponent of the leading digit of the value. -/
def Window.leading (w : Window) : Int :=
  ((Nat.toDigits 10 (w.value * Nat.pow 10 400 / w.denominator)).length : Int) - 401

/-- The shortest decimal in the window; seventeen digits always suffice. -/
def Window.shortest (w : Window) : Decimal :=
  let grids := (List.range 17).map fun (count : Nat) => w.leading - (count : Int)
  ((grids.findSome? w.onGrid?).getD ⟨0, 0⟩).strip

/-- How decimals are laid out: positional while the point stands at most `before`
digits after the first digit and at most `after` zeros precede it. -/
structure Layout where
  before : Int
  after : Int

/-- Numbers are positional from `0.00001` up to below `10000000000000000`. -/
def layout : Layout := ⟨16, 4⟩

def digitsOf (n : Nat) : List Char := Nat.toDigits 10 n

def integerText (i : Int) : List Char :=
  if i < 0 then '-' :: digitsOf i.natAbs else digitsOf i.natAbs

def exponentText (i : Int) : List Char :=
  (if i < 0 then '-' else '+') :: digitsOf i.natAbs

/-- The text of a decimal: a whole number keeps one zero after the point. -/
def Decimal.text (d : Decimal) (style : Layout) : List Char :=
  let digits := digitsOf d.digits
  let point := digits.length + d.exponent
  if 0 ≤ d.exponent ∧ point ≤ style.before then
    digits ++ List.replicate d.exponent.toNat '0' ++ ['.', '0']
  else if 0 < point ∧ point ≤ style.before then
    digits.take point.toNat ++ '.' :: digits.drop point.toNat
  else if -style.after - 1 < point ∧ point ≤ 0 then
    '0' :: '.' :: List.replicate (-point).toNat '0' ++ digits
  else if digits.length = 1 then
    digits ++ 'e' :: exponentText (point - 1)
  else
    digits.take 1 ++ '.' :: digits.drop 1 ++ 'e' :: exponentText (point - 1)

def text (x : Binary64) : List Char :=
  let absolute := if x.isZero then ['0', '.', '0'] else x.window.shortest.text layout
  if x.negative then '-' :: absolute else absolute

end Binary64

end Statechart.Json
