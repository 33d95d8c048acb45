import Statechart.Context
import Statechart.Json.Record
import Statechart.Proofs.JsonText

/-!
# Reading back the fields of a record

A record is written as one slot for each name, and a slot without a value leaves nothing
behind. Asked for by name, every slot is found as it was, in whichever order the names are
asked for. A list is read back once its items are. A table of entries whose keys already
differ settles as it stands, and a context whose keys already increase stays in place.
-/

namespace Statechart

namespace Keyed

variable {α : Type} {key : String} {value : α} {entries : List (String × α)}

theorem put_of_not_mem (isNew : key ∉ entries.map (·.1)) :
    put key value entries = entries ++ [(key, value)] := by
  induction entries with
  | nil => rfl
  | cons entry rest ih =>
      rw [List.map_cons, List.mem_cons, not_or] at isNew
      rw [put, if_neg fun same => isNew.1 same.symm, ih isNew.2, List.cons_append]

theorem settle_of_nodup (distinct : (entries.map (·.1)).Nodup) : settle entries = entries := by
  suffices general : ∀ settled : List (String × α), ((settled ++ entries).map (·.1)).Nodup →
      entries.foldl (fun settled entry => put entry.1 entry.2 settled) settled =
        settled ++ entries from general [] distinct
  clear distinct
  induction entries with
  | nil => exact fun settled _ => (List.append_nil settled).symm
  | cons entry rest ih =>
      intro settled distinct
      have isNew : entry.1 ∉ settled.map (·.1) := by
        rw [List.map_append, List.nodup_append] at distinct
        exact fun member => distinct.2.2 _ member _ (.head _) rfl
      have moved : settled ++ entry :: rest = settled ++ [(entry.1, entry.2)] ++ rest := by simp
      rw [List.foldl_cons, put_of_not_mem isNew, ih _ (moved ▸ distinct), moved]

/-- An entry whose key is above all others goes to the end. -/
theorem insert_of_lt (above : ∀ entry ∈ entries, entry.1 < key) :
    insert key value entries = entries ++ [(key, value)] := by
  induction entries with
  | nil => rfl
  | cons entry rest ih =>
      have less := above entry (.head _)
      rw [insert, if_neg (String.lt_asymm less),
        if_neg fun same : key = entry.1 => String.lt_irrefl _ (same ▸ less),
        ih fun other member => above other (.tail _ member), List.cons_append]

theorem sort_of_increasing (increasing : Increasing entries) : sort entries = entries := by
  suffices general : ∀ sorted : List (String × α), Increasing (sorted ++ entries) →
      entries.foldl (fun sorted entry => insert entry.1 entry.2 sorted) sorted =
        sorted ++ entries from general [] increasing
  clear increasing
  induction entries with
  | nil => exact fun sorted _ => (List.append_nil sorted).symm
  | cons entry rest ih =>
      intro sorted increasing
      have above : ∀ other ∈ sorted, other.1 < entry.1 := fun other member =>
        (List.pairwise_append.1 increasing).2.2 other member entry (.head _)
      have moved : sorted ++ entry :: rest = sorted ++ [(entry.1, entry.2)] ++ rest := by simp
      rw [List.foldl_cons, insert_of_lt above, ih _ (moved ▸ increasing), moved]

end Keyed

namespace Json

mutual
theorem canonical_of_canonical : {value : Json} → value.Canonical → value.canonical = value
  | .null, _ | .bool _, _ | .number _, _ | .string _, _ => rfl
  | .array _, each => congrArg Json.array (canonicalItems_of_canonical each)
  | .object fields, ⟨increasing, each⟩ => by
      rw [canonical, canonicalFields_of_canonical each, Keyed.sort_of_increasing increasing]

theorem canonicalItems_of_canonical :
    {items : List Json} → ItemsCanonical items → canonicalItems items = items
  | [], _ => rfl
  | item :: rest, ⟨first, others⟩ => by
      rw [canonicalItems, canonical_of_canonical first, canonicalItems_of_canonical others]

theorem canonicalFields_of_canonical :
    {fields : List (String × Json)} → FieldsCanonical fields → canonicalFields fields = fields
  | [], _ => rfl
  | field :: rest, ⟨first, others⟩ => by
      rw [canonicalFields, canonical_of_canonical first, canonicalFields_of_canonical others]
end

/-! ## Slots -/

variable {α : Type} {slots : List (String × Option α)}

/-- The fields of a record: the slots that hold a value. -/
def written (slots : List (String × Option α)) : List (String × α) :=
  slots.flatMap fun slot => (slot.2.map fun value => (slot.1, value)).toList

theorem mem_written {field : String × α} :
    field ∈ written slots ↔ (field.1, some field.2) ∈ slots := by
  constructor
  · intro member
    obtain ⟨⟨name, place⟩, isSlot, holds⟩ := List.mem_flatMap.1 member
    obtain ⟨value, rfl, rfl⟩ := Option.map_eq_some_iff.1 (Option.mem_toList.1 holds)
    exact isSlot
  · intro member
    exact List.mem_flatMap.2 ⟨_, member, List.mem_singleton.2 rfl⟩

theorem filter_slot (slot : String × Option α) (name : String) :
    ((slot.2.map fun value => (slot.1, value)).toList).filter (·.1 = name) =
      if slot.1 = name then (slot.2.map fun value => (slot.1, value)).toList else [] := by
  obtain ⟨own, _ | value⟩ := slot
  · simp
  · by_cases same : own = name <;> simp [same]

theorem filter_written_of_not_mem {name : String} (absent : name ∉ slots.map (·.1)) :
    (written slots).filter (·.1 = name) = [] := by
  refine List.filter_eq_nil_iff.2 fun field member => ?_
  have named : field.1 ∈ slots.map (·.1) := List.mem_map_of_mem (mem_written.1 member)
  simpa using fun same : field.1 = name => absent (same ▸ named)

/-- Of all fields only that of its own slot has the name of the slot. -/
theorem field?_written {slot : String × Option α} (distinct : (slots.map (·.1)).Nodup)
    (member : slot ∈ slots) : field? (written slots) slot.1 = some slot.2 := by
  have own : (written slots).filter (·.1 = slot.1) =
      (slot.2.map fun value => (slot.1, value)).toList := by
    induction slots with
    | nil => cases member
    | cons first rest ih =>
        obtain ⟨isNew, later⟩ := List.nodup_cons.1 distinct
        rw [written, List.flatMap_cons, List.filter_append, filter_slot]
        rcases List.mem_cons.1 member with rfl | member
        · rw [if_pos rfl, ← written, filter_written_of_not_mem isNew, List.append_nil]
        · have differs : first.1 ≠ slot.1 := fun same =>
            isNew (List.mem_map.2 ⟨slot, member, same.symm⟩)
          rw [if_neg differs, List.nil_append]
          exact ih later member
  rw [field?, own]
  cases slot.2 <;> rfl

theorem byName?_written (distinct : (slots.map (·.1)).Nodup)
    (asked : List (String × Option α)) (among : asked ⊆ slots) :
    byName? (written slots) (asked.map (·.1)) = some (asked.map (·.2)) := by
  induction asked with
  | nil => rfl
  | cons slot rest ih =>
      obtain ⟨here, later⟩ := List.cons_subset.1 among
      rw [List.map_cons, byName?, field?_written distinct here, ih later]
      rfl

theorem record?_written {slots : List (String × Option Json)}
    (distinct : (slots.map (·.1)).Nodup) :
    record? (slots.map (·.1)) (.object (written slots)) = some (slots.map (·.2)) :=
  byName?_written distinct slots (List.Subset.refl slots)

theorem realFree_written {slots : List (String × Option Json)}
    (each : ∀ slot ∈ slots, ∀ value ∈ slot.2, value.RealFree) :
    (Json.object (written slots)).RealFree :=
  fieldsRealFree_iff.2 fun field member => each _ (mem_written.1 member) field.2 rfl

theorem optional?_string (text : Option String) :
    optional? string? (text.map .string) = some text := by
  cases text <;> rfl

theorem unsigned?_ofUInt64 (n : UInt64) : unsigned? 64 (ofUInt64 n) = some n.toNat := by
  have fits : 0 ≤ (n.toNat : Int) ∧ (n.toNat : Int).toNat < Nat.pow 2 64 :=
    ⟨Int.natCast_nonneg _, n.toNat_lt⟩
  exact if_pos fits

/-! ## Lists that are left out when they are empty -/

variable {read : Json → Option α}

/-- The slot of a list that is left out when it is empty. -/
def unlessEmpty (write : List α → Json) (items : List α) : Option Json :=
  if items.isEmpty then none else some (write items)

theorem eq_of_mem_unlessEmpty {write : List α → Json} {items : List α} {value : Json}
    (member : value ∈ unlessEmpty write items) : value = write items := by
  unfold unlessEmpty at member
  split at member
  · cases member
  · exact (Option.some.inj member).symm

theorem written_unlessEmpty (name : String) (write : List α → Json) (items : List α) :
    ((unlessEmpty write items).map fun value => (name, value)).toList =
      if items.isEmpty then [] else [(name, write items)] := by
  unfold unlessEmpty
  split <;> rfl

theorem orDefault?_unlessEmpty {read : Json → Option (List α)} {write : List α → Json}
    {items : List α} (reads : read (write items) = some items) :
    orDefault? [] read (unlessEmpty write items) = some items := by
  cases items with
  | nil => rfl
  | cons _ _ => exact reads

theorem mapM_map {β : Type} {read : β → Option α} {write : α → β} {items : List α}
    (reads : ∀ item ∈ items, read (write item) = some item) :
    (items.map write).mapM read = some items := by
  induction items with
  | nil => rfl
  | cons item rest ih =>
      rw [List.map_cons, List.mapM_cons, reads item (.head _),
        ih fun other member => reads other (.tail _ member)]
      rfl

theorem list?_map {write : α → Json} {items : List α}
    (reads : ∀ item ∈ items, read (write item) = some item) :
    list? read (.array (items.map write)) = some items :=
  mapM_map reads

theorem oneOrMany?_map {write : α → Json} {items : List α}
    (reads : ∀ item ∈ items, read (write item) = some item) :
    oneOrMany? read (.array (items.map write)) = some items := by
  rw [oneOrMany?, list?_map reads]

theorem oneOrMany?_strings (texts : List String) :
    oneOrMany? string? (strings texts) = some texts :=
  oneOrMany?_map fun _ _ => rfl

theorem realFree_unlessEmpty {write : List α → Json} {items : List α}
    (free : (write items).RealFree) : ∀ value ∈ unlessEmpty write items, value.RealFree :=
  fun _ member => eq_of_mem_unlessEmpty member ▸ free

end Json

namespace Context

/-- Set one after the other, entries are sorted and brought into canonical form. -/
theorem entries_ofList (entries : List (String × Json)) :
    (ofList entries).entries = Keyed.sort (Json.canonicalFields entries) := by
  suffices general : ∀ context : Context, (context.setAll entries).entries =
      (Json.canonicalFields entries).foldl
        (fun sorted entry => Keyed.insert entry.1 entry.2 sorted) context.entries from
    general .empty
  induction entries with
  | nil => exact fun _ => rfl
  | cons entry rest ih => exact fun context => ih (context.set entry.1 entry.2)

/-- Written and read, a context is the same context. -/
theorem ofJson?_toJson (context : Context) : ofJson? context.toJson = some context := by
  obtain ⟨increasing, each⟩ := context.canonical
  have same : (ofList context.entries).entries = context.entries := by
    rw [entries_ofList, Json.canonicalFields_of_canonical each,
      Keyed.sort_of_increasing increasing]
  exact congrArg some (ext_entries same)

end Context

end Statechart
