import Statechart.Json.Raw

/-!
# Contexts

The extended state of a machine: values by key, in key order. Every value is in
canonical form, so two contexts with the same values are the same context.
-/

namespace Statechart

structure Context where
  entries : List (String × Json)
  canonical : (Json.object entries).Canonical

namespace Context

def empty : Context := ⟨[], by simp [Json.Canonical, Json.FieldsCanonical, Keyed.Increasing]⟩

instance : Inhabited Context := ⟨empty⟩

theorem ext_entries {a b : Context} (same : a.entries = b.entries) : a = b := by
  cases a; cases b; cases same; rfl

def get? (context : Context) (key : String) : Option Json := context.entries.lookup key

def bool? (context : Context) (key : String) : Option Bool := (context.get? key).bind Json.bool?

def int64? (context : Context) (key : String) : Option Int64 :=
  (context.get? key).bind Json.int64?

def string? (context : Context) (key : String) : Option String :=
  (context.get? key).bind Json.string?

def contains (context : Context) (key : String) : Bool := (context.get? key).isSome

def size (context : Context) : Nat := context.entries.length

def isEmpty (context : Context) : Bool := context.entries.isEmpty

def set (context : Context) (key : String) (value : Json) : Context where
  entries := Keyed.insert key value.canonical context.entries
  canonical := by
    obtain ⟨increasing, values⟩ := context.canonical
    refine ⟨Keyed.increasing_insert increasing, Json.fieldsCanonical_iff.2 fun field member => ?_⟩
    rcases Keyed.mem_insert member with rfl | member
    · exact Json.canonical_canonical value
    · exact Json.fieldsCanonical_iff.1 values field member

def remove (context : Context) (key : String) : Context where
  entries := Keyed.erase key context.entries
  canonical := by
    obtain ⟨increasing, values⟩ := context.canonical
    exact ⟨Keyed.increasing_erase increasing, Json.fieldsCanonical_iff.2 fun field member =>
      Json.fieldsCanonical_iff.1 values field (Keyed.mem_of_mem_erase member)⟩

def setAll (context : Context) (entries : List (String × Json)) : Context :=
  entries.foldl (fun context entry => context.set entry.1 entry.2) context

def ofList (entries : List (String × Json)) : Context := empty.setAll entries

/-- Equality of contexts, numbers compared as numbers. -/
def same (a b : Context) : Bool := Json.sameFields a.entries b.entries

def toJson (context : Context) : Json := .object context.entries

def ofJson? : Json → Option Context
  | .object fields => some (ofList fields)
  | _ => none

def ofText? (text : String) : Option Context := (Json.ofText? text).bind ofJson?

end Context

end Statechart
