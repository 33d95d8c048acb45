import Statechart.Keyed
import Statechart.Json.Number

/-!
# JSON values

Objects keep the order of the document and may repeat a key. A value is in
*canonical form* when the keys of every object strictly increase; every value has
a canonical form, in which the last value of a repeated key survives.
-/

namespace Statechart

inductive Json
  | null
  | bool (value : Bool)
  | number (value : Json.Number)
  | string (value : String)
  | array (items : List Json)
  | object (fields : List (String × Json))

namespace Json

instance : Inhabited Json := ⟨.null⟩

mutual
/-- The keys of every object strictly increase. -/
def Canonical : Json → Prop
  | .null | .bool _ | .number _ | .string _ => True
  | .array items => ItemsCanonical items
  | .object fields => Keyed.Increasing fields ∧ FieldsCanonical fields

def ItemsCanonical : List Json → Prop
  | [] => True
  | item :: rest => item.Canonical ∧ ItemsCanonical rest

def FieldsCanonical : List (String × Json) → Prop
  | [] => True
  | field :: rest => field.2.Canonical ∧ FieldsCanonical rest
end

mutual
def canonical : Json → Json
  | .null => .null
  | .bool value => .bool value
  | .number value => .number value
  | .string value => .string value
  | .array items => .array (canonicalItems items)
  | .object fields => .object (Keyed.sort (canonicalFields fields))

def canonicalItems : List Json → List Json
  | [] => []
  | item :: rest => item.canonical :: canonicalItems rest

def canonicalFields : List (String × Json) → List (String × Json)
  | [] => []
  | field :: rest => (field.1, field.2.canonical) :: canonicalFields rest
end

theorem fieldsCanonical_iff {fields : List (String × Json)} :
    FieldsCanonical fields ↔ ∀ field ∈ fields, field.2.Canonical := by
  induction fields with
  | nil => simp [FieldsCanonical]
  | cons field rest ih => simp [FieldsCanonical, ih]

mutual
theorem canonical_canonical : (value : Json) → value.canonical.Canonical
  | .null | .bool _ | .number _ | .string _ => by simp [canonical, Canonical]
  | .array items => by
      rw [canonical, Canonical]
      exact itemsCanonical_canonicalItems items
  | .object fields => by
      rw [canonical, Canonical]
      refine ⟨Keyed.increasing_sort _, fieldsCanonical_iff.2 fun field member => ?_⟩
      exact fieldsCanonical_iff.1 (fieldsCanonical_canonicalFields fields) field
        (Keyed.mem_of_mem_sort member)

theorem itemsCanonical_canonicalItems :
    (items : List Json) → ItemsCanonical (canonicalItems items)
  | [] => by simp [canonicalItems, ItemsCanonical]
  | item :: rest => by
      rw [canonicalItems, ItemsCanonical]
      exact ⟨canonical_canonical item, itemsCanonical_canonicalItems rest⟩

theorem fieldsCanonical_canonicalFields :
    (fields : List (String × Json)) → FieldsCanonical (canonicalFields fields)
  | [] => by simp [canonicalFields, FieldsCanonical]
  | field :: rest => by
      rw [canonicalFields, FieldsCanonical]
      exact ⟨canonical_canonical field.2, fieldsCanonical_canonicalFields rest⟩
end

mutual
/-- Equality of values, numbers compared as numbers. -/
def same : Json → Json → Bool
  | .null, .null => true
  | .bool a, .bool b => a == b
  | .number a, .number b => a.same b
  | .string a, .string b => a == b
  | .array a, .array b => sameItems a b
  | .object a, .object b => sameFields a b
  | _, _ => false

def sameItems : List Json → List Json → Bool
  | [], [] => true
  | a :: as, b :: bs => a.same b && sameItems as bs
  | _, _ => false

def sameFields : List (String × Json) → List (String × Json) → Bool
  | [], [] => true
  | a :: as, b :: bs => a.1 == b.1 && a.2.same b.2 && sameFields as bs
  | _, _ => false
end

def bool? : Json → Option Bool
  | .bool value => some value
  | _ => none

def string? : Json → Option String
  | .string value => some value
  | _ => none

/-- The integer a value is, if it fits a signed word. -/
def int64? : Json → Option Int64
  | .number value => value.int64?
  | _ => none

def strings (texts : List String) : Json := .array (texts.map .string)

def ofInt64 (i : Int64) : Json := .number (.ofInt64 i)

def ofUInt64 (n : UInt64) : Json := .number (.ofUInt64 n)

/-- A size; sizes stay below the word limit. -/
def ofNat (n : Nat) : Json :=
  match Number.ofInt? n with
  | some value => .number value
  | none => .null

end Json

end Statechart
