import Statechart.Json.Raw

/-!
# Records in JSON

A record is an object whose named fields appear at most once each, among others
that are ignored, or an array that gives the fields by position from the first.
A variant without data is its name, alone or as the only key of an object.
-/

namespace Statechart.Json

variable {α : Type}

def field? (fields : List (String × α)) (name : String) : Option (Option α) :=
  match fields.filter (·.1 = name) with
  | [] => some none
  | [field] => some (some field.2)
  | _ => none

/-- One place for each name, filled from the named fields. -/
def byName? (fields : List (String × α)) : List String → Option (List (Option α))
  | [] => some []
  | name :: names => do
    let place ← field? fields name
    let places ← byName? fields names
    return place :: places

/-- One place for each name, filled from the front; too many items are refused. -/
def byPosition? (names : List String) (items : List α) : Option (List (Option α)) :=
  if items.length ≤ names.length then
    some (items.map some ++ List.replicate (names.length - items.length) none)
  else none

def record? (names : List String) : Json → Option (List (Option Json))
  | .object fields => byName? fields names
  | .array items => byPosition? names items
  | _ => none

theorem mem_of_field? {fields : List (String × α)} {name : String} {value : α}
    (found : field? fields name = some (some value)) : ∃ key, (key, value) ∈ fields := by
  unfold field? at found
  split at found
  · simp at found
  · next field single =>
    have member : field ∈ fields.filter (·.1 = name) := by rw [single]; exact .head _
    simp only [Option.some.injEq] at found
    exact ⟨field.1, found ▸ (List.mem_filter.1 member).1⟩
  · simp at found

theorem mem_of_byName? {fields : List (String × α)} {names : List String}
    {places : List (Option α)} {value : α} (found : byName? fields names = some places)
    (member : some value ∈ places) : ∃ key, (key, value) ∈ fields := by
  induction names generalizing places with
  | nil => simp_all [byName?]
  | cons name names ih =>
      simp only [byName?, Option.bind_eq_bind, Option.bind_eq_some_iff, Option.pure_def,
        Option.some.injEq] at found
      obtain ⟨place, first, rest, later, rfl⟩ := found
      rcases List.mem_cons.1 member with rfl | member
      · exact mem_of_field? first
      · exact ih later member

/-- A field of a record is smaller than the record. -/
theorem sizeOf_lt_of_record? {names : List String} {record value : Json}
    {places : List (Option Json)} (found : record? names record = some places)
    (member : some value ∈ places) : sizeOf value < sizeOf record := by
  cases record with
  | object fields =>
      obtain ⟨key, member⟩ := mem_of_byName? found member
      have smaller := List.sizeOf_lt_of_mem member
      simp only [Json.object.sizeOf_spec, Prod.mk.sizeOf_spec] at smaller ⊢
      omega
  | array items =>
      simp only [record?, byPosition?] at found
      split at found
      · simp only [Option.some.injEq] at found
        subst found
        have member : value ∈ items := by simpa using member
        have smaller := List.sizeOf_lt_of_mem member
        simp only [Json.array.sizeOf_spec]
        omega
      · simp at found
  | null | bool _ | number _ | string _ => simp [record?] at found

/-- The name of a variant without data. -/
def variant? : Json → Option String
  | .string name => some name
  | .object [(name, .null)] => some name
  | .object [(name, .object [])] => some name
  | _ => none

/-- A value that may be absent or null. -/
def optional? (read : Json → Option α) : Option Json → Option (Option α)
  | none | some .null => some none
  | some value => (read value).map some

/-- A value that has a default when absent. -/
def orDefault? (default : α) (read : Json → Option α) : Option Json → Option α
  | none => some default
  | some value => read value

/-- An unsigned integer below two to the `width`. -/
def unsigned? (width : Nat) : Json → Option Nat
  | .number value => value.unsigned? width
  | _ => none

def list? (read : Json → Option α) : Json → Option (List α)
  | .array items => items.mapM read
  | _ => none

/-- A list of values, or a single value for a list of one. -/
def oneOrMany? (read : Json → Option α) (value : Json) : Option (List α) :=
  match list? read value with
  | some items => some items
  | none => (read value).map ([·])

namespace Raw

def fields? : List (Quoted × Raw) → Option (List (String × Raw))
  | [] => some []
  | field :: rest => do
    let key ← field.1.string?
    let others ← fields? rest
    return (key, field.2) :: others

/-- Whether a record gives its fields by name, and the fields in the order of names. -/
def record? (names : List String) : Raw → Option (Bool × List (Option Raw))
  | .object fields => do
    let named ← fields? fields
    return (true, ← byName? named names)
  | .array items => do return (false, ← byPosition? names items)
  | _ => none

/-- The name of a variant without data, where only null may stand for the data. -/
def variant? : Raw → Option String
  | .string name => name.string?
  | .object [(name, .null)] => name.string?
  | _ => none

def string? : Raw → Option String
  | .string value => value.string?
  | _ => none

def unsigned? (width : Nat) : Raw → Option Nat
  | .number value => value.number?.bind (·.unsigned? width)
  | _ => none

def optional? (read : Raw → Option α) : Raw → Option (Option α)
  | .null => some none
  | value => (read value).map some

/-- A value that has a default when absent. -/
def orDefault? (default : α) (read : Raw → Option α) : Option Raw → Option α
  | none => some default
  | some value => read value

end Raw

end Statechart.Json
