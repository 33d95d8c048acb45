import Statechart.Duration
import Statechart.Text.Blank

/-!
# Timestamps

Instants in universal time to the nanosecond, on the proleptic Gregorian calendar. A
leap second is the last second of its minute with a thousand million nanoseconds more.
Read, a timestamp has an offset, which may be written in several ways; written, it
ends in `Z` and has no, three, six or nine digits of a second.
-/

namespace Statechart

structure Timestamp where
  /-- Days since 1970-01-01. -/
  day : Int
  second : Nat
  nano : Nat
  deriving DecidableEq

namespace Timestamp

instance : Inhabited Timestamp := ⟨⟨0, 0, 0⟩⟩

/-- Days from 1970-01-01 to a date; the year is counted from March. -/
def dayOfDate (year : Int) (month day : Nat) : Int :=
  let year := if month ≤ 2 then year - 1 else year
  let era := year / 400
  let yearOfEra := year % 400
  let monthFromMarch := (month + 9) % 12
  let dayOfYear : Int := ((153 * monthFromMarch + 2) / 5 + day - 1 : Nat)
  let dayOfEra := yearOfEra * 365 + yearOfEra / 4 - yearOfEra / 100 + dayOfYear
  era * 146097 + dayOfEra - 719468

def dateOfDay (day : Int) : Int × Nat × Nat :=
  let day := day + 719468
  let era := day / 146097
  let dayOfEra := (day % 146097).toNat
  let yearOfEra := (dayOfEra - dayOfEra / 1460 + dayOfEra / 36524 - dayOfEra / 146096) / 365
  let dayOfYear := dayOfEra - (365 * yearOfEra + yearOfEra / 4 - yearOfEra / 100)
  let monthFromMarch := (5 * dayOfYear + 2) / 153
  let day := dayOfYear - (153 * monthFromMarch + 2) / 5 + 1
  let month := if monthFromMarch < 10 then monthFromMarch + 3 else monthFromMarch - 9
  let year := era * 400 + yearOfEra
  (if month ≤ 2 then year + 1 else year, month, day)

def isLeapYear (year : Int) : Bool := year % 4 == 0 && (year % 100 != 0 || year % 400 == 0)

def daysInMonth (year : Int) (month : Nat) : Nat :=
  if month = 2 then if isLeapYear year then 29 else 28
  else if month = 4 ∨ month = 6 ∨ month = 9 ∨ month = 11 then 30
  else 31

/-! ## Writing -/

/-- A number with zeros in front up to a width. -/
def padded (width n : Nat) : List Char :=
  let digits := Nat.toDigits 10 n
  List.replicate (width - digits.length) '0' ++ digits

/-- Years outside four digits have a sign. -/
def yearText (year : Int) : List Char :=
  if 0 ≤ year ∧ year ≤ 9999 then padded 4 year.toNat
  else (if year < 0 then '-' else '+') :: padded 4 year.natAbs

def fractionText (nano : Nat) : List Char :=
  if nano = 0 then []
  else if nano % 1_000_000 = 0 then '.' :: padded 3 (nano / 1_000_000)
  else if nano % 1000 = 0 then '.' :: padded 6 (nano / 1000)
  else '.' :: padded 9 nano

def text (t : Timestamp) : String :=
  let (year, month, day) := dateOfDay t.day
  let leap := t.nano / 1_000_000_000
  String.ofList <|
    yearText year ++ '-' :: padded 2 month ++ '-' :: padded 2 day ++
    'T' :: padded 2 (t.second / 3600) ++ ':' :: padded 2 (t.second / 60 % 60) ++
    ':' :: padded 2 (t.second % 60 + leap) ++ fractionText (t.nano % 1_000_000_000) ++ ['Z']

/-! ## Reading -/

def digit? (c : Char) : Option Nat :=
  if '0' ≤ c ∧ c ≤ '9' then some (c.toNat - '0'.toNat) else none

/-- The digits at the front of a text, at most a number of them, and the rest. -/
def takeDigits : Nat → List Char → List Nat × List Char
  | 0, text => ([], text)
  | _ + 1, [] => ([], [])
  | count + 1, c :: rest =>
    match digit? c with
    | some d => let (digits, rest) := takeDigits count rest; (d :: digits, rest)
    | none => ([], c :: rest)

def valueOf (digits : List Nat) : Nat := digits.foldl (fun value d => value * 10 + d) 0

/-- A number of one up to a count of digits, after blanks. -/
def number? (count : Nat) (text : List Char) : Option (Nat × List Char) :=
  match takeDigits count (Text.trimFront text) with
  | ([], _) => none
  | (digits, rest) => some (valueOf digits, rest)

/-- A year: four digits at most, or any number of them after a sign. -/
def year? (text : List Char) : Option (Int × List Char) :=
  match Text.trimFront text with
  | '-' :: rest => signed? true rest
  | '+' :: rest => signed? false rest
  | rest => (number? 4 rest).map fun (n, rest) => (n, rest)
where
  signed? (negative : Bool) (text : List Char) : Option (Int × List Char) :=
    match takeDigits text.length text with
    | ([], _) => none
    | (digits, rest) =>
      let n : Int := valueOf digits
      some (if negative then -n else n, rest)

def separator? (c : Char) (text : List Char) : Option (List Char) :=
  match Text.trimFront text with
  | head :: rest => if head = c then some (Text.trimFront rest) else none
  | [] => none

/-- The nanoseconds after a point, if there is one; digits after the ninth are dropped. -/
def fraction? : List Char → Option (Nat × List Char)
  | '.' :: rest =>
    match takeDigits 9 rest with
    | ([], _) => none
    | (digits, rest) =>
      some (valueOf digits * Nat.pow 10 (9 - digits.length),
        rest.dropWhile fun c => (digit? c).isSome)
  | rest => some (0, rest)

def twoDigits? : List Char → Option (Nat × List Char)
  | a :: b :: rest => do
    let a ← digit? a
    let b ← digit? b
    return (a * 10 + b, rest)
  | _ => none

/-- The seconds that a written offset adds to universal time. -/
def offset? (text : List Char) : Option (Int × List Char) :=
  match text with
  | a :: b :: c :: rest =>
    if [a, b, c].map Char.toUpper = ['U', 'T', 'C'] then some (0, rest) else zone? text
  | text => zone? text
where
  zone? : List Char → Option (Int × List Char)
    | 'Z' :: rest | 'z' :: rest => some (0, rest)
    | sign :: rest => do
      let negative ←
        if sign = '+' then some false
        else if sign = '-' ∨ sign = '\u2212' then some true
        else none
      let (hours, rest) ← twoDigits? rest
      let (minutes, rest) ←
        twoDigits? (rest.dropWhile fun c => c = ':' || Text.isBlank c)
      if minutes < 60 then
        let seconds : Int := hours * 3600 + minutes * 60
        some (if negative then -seconds else seconds, rest)
      else none
    | [] => none

/-- The instant of a local date and time, if they exist. -/
def ofLocal? (year : Int) (month day hour minute second nano : Nat) (offset : Int) :
    Option Timestamp :=
  if 1 ≤ month ∧ month ≤ 12 ∧ 1 ≤ day ∧ day ≤ daysInMonth year month ∧ hour < 24 ∧
      minute < 60 ∧ second ≤ 60 ∧ -86400 < offset ∧ offset < 86400 ∧
      -262143 ≤ year ∧ year ≤ 262142 then
    let leap := second / 60
    let seconds : Int := (hour * 3600 + minute * 60 + (second - leap) : Nat) - offset
    let total := dayOfDate year month day * 86400 + seconds
    let instant : Timestamp :=
      ⟨total / 86400, (total % 86400).toNat, leap * 1_000_000_000 + nano⟩
    let utcYear := (dateOfDay instant.day).1
    if -262143 ≤ utcYear ∧ utcYear ≤ 262142 then some instant else none
  else none

def ofText? (text : String) : Option Timestamp := do
  let (year, rest) ← year? text.toList
  let rest ← separator? '-' rest
  let (month, rest) ← number? 2 rest
  let rest ← separator? '-' rest
  let (day, rest) ← number? 2 rest
  let rest ←
    match rest with
    | c :: rest => if c = 'T' ∨ c = 't' ∨ c = ' ' then some rest else none
    | [] => none
  let (hour, rest) ← number? 2 rest
  let rest ← separator? ':' rest
  let (minute, rest) ← number? 2 rest
  let rest ← separator? ':' rest
  let (second, rest) ← number? 2 rest
  let (nano, rest) ← fraction? rest
  let (offset, rest) ← offset? (Text.trimFront rest)
  if rest.all Text.isBlank then ofLocal? year month day hour minute second nano offset else none

/-! ## Elapsed time -/

/-- The seconds from one instant to another, leap seconds between the two of a day
counted when the earlier one lies in them. -/
def secondsSince (later earlier : Timestamp) : Int :=
  let seconds : Int := (later.second : Int) - earlier.second
  let leap : Int :=
    if later.second > earlier.second ∧ earlier.nano ≥ 1_000_000_000 then 1
    else if later.second < earlier.second ∧ later.nano ≥ 1_000_000_000 then -1
    else 0
  (later.day - earlier.day) * 86400 + seconds + leap

def since? (later earlier : Timestamp) : Option Duration :=
  let nanos := secondsSince later earlier * 1_000_000_000 + ((later.nano : Int) - earlier.nano)
  if 0 ≤ nanos then Duration.ofNanos? nanos.toNat else none

end Timestamp

end Statechart
