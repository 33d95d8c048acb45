/-!
# Keyed lists

Two disciplines for a list of keyed entries. In *document order* an entry stays
where its key first appeared and keeps the value written last. In *key order*
the keys strictly increase, by code points.
-/

namespace Statechart.Keyed

variable {α : Type}

def Increasing (entries : List (String × α)) : Prop :=
  entries.Pairwise fun earlier later => earlier.1 < later.1

/-- Document order: replace the value of a key, or append a new entry. -/
def put (key : String) (value : α) : List (String × α) → List (String × α)
  | [] => [(key, value)]
  | entry :: rest =>
    if entry.1 = key then (entry.1, value) :: rest else entry :: put key value rest

/-- Each key at its first place, with its last value. -/
def settle (entries : List (String × α)) : List (String × α) :=
  entries.foldl (fun settled entry => put entry.1 entry.2 settled) []

/-- Key order: replace the value of a key, or insert a new entry at its place. -/
def insert (key : String) (value : α) : List (String × α) → List (String × α)
  | [] => [(key, value)]
  | entry :: rest =>
    if key < entry.1 then (key, value) :: entry :: rest
    else if key = entry.1 then (key, value) :: rest
    else entry :: insert key value rest

/-- The entries in key order, each key with its last value. -/
def sort (entries : List (String × α)) : List (String × α) :=
  entries.foldl (fun sorted entry => insert entry.1 entry.2 sorted) []

def erase (key : String) (entries : List (String × α)) : List (String × α) :=
  entries.filter fun entry => entry.1 ≠ key

theorem mem_insert {key : String} {value : α} {entries : List (String × α)}
    {entry : String × α} (member : entry ∈ insert key value entries) :
    entry = (key, value) ∨ entry ∈ entries := by
  induction entries with
  | nil => simpa [insert] using member
  | cons head rest ih =>
      simp only [insert] at member
      split at member
      · simpa using member
      · split at member
        · rcases List.mem_cons.1 member with rfl | member
          · exact .inl rfl
          · exact .inr (.tail _ member)
        · rcases List.mem_cons.1 member with rfl | member
          · exact .inr (.head _)
          · exact (ih member).imp_right (.tail _)

theorem increasing_insert {key : String} {value : α} {entries : List (String × α)}
    (increasing : Increasing entries) : Increasing (insert key value entries) := by
  induction entries with
  | nil => simp [insert, Increasing]
  | cons head rest ih =>
      obtain ⟨below, tail⟩ := List.pairwise_cons.1 increasing
      simp only [insert]
      split
      · next less =>
        refine List.pairwise_cons.2 ⟨fun entry member => ?_, increasing⟩
        rcases List.mem_cons.1 member with rfl | member
        · exact less
        · exact String.lt_trans less (below entry member)
      · next notLess =>
        split
        · next same =>
          exact List.pairwise_cons.2 ⟨fun entry member => same ▸ below entry member, tail⟩
        · next different =>
          refine List.pairwise_cons.2 ⟨fun entry member => ?_, ih tail⟩
          rcases mem_insert member with rfl | member
          · exact Decidable.byContradiction fun notGreater => different
              (String.le_antisymm (String.not_lt.1 notGreater) (String.not_lt.1 notLess))
          · exact below entry member

theorem increasing_erase {key : String} {entries : List (String × α)}
    (increasing : Increasing entries) : Increasing (erase key entries) :=
  List.Pairwise.filter _ increasing

theorem mem_of_mem_erase {key : String} {entries : List (String × α)} {entry : String × α}
    (member : entry ∈ erase key entries) : entry ∈ entries :=
  (List.mem_filter.1 member).1

theorem increasing_sort (entries : List (String × α)) : Increasing (sort entries) := by
  suffices general : ∀ sorted : List (String × α), Increasing sorted →
      Increasing (entries.foldl (fun sorted entry => insert entry.1 entry.2 sorted) sorted) from
    general [] List.Pairwise.nil
  induction entries with
  | nil => exact fun _ increasing => increasing
  | cons entry rest ih => exact fun _ increasing => ih _ (increasing_insert increasing)

theorem mem_of_mem_sort {entries : List (String × α)} {entry : String × α}
    (member : entry ∈ sort entries) : entry ∈ entries := by
  suffices general : ∀ sorted : List (String × α),
      entry ∈ entries.foldl (fun sorted entry => insert entry.1 entry.2 sorted) sorted →
      entry ∈ sorted ∨ entry ∈ entries from
    (general [] member).resolve_left (List.not_mem_nil)
  clear member
  induction entries with
  | nil => exact fun _ member => .inl member
  | cons head rest ih =>
      intro sorted member
      rcases ih _ member with member | member
      · rcases mem_insert member with rfl | member
        · exact .inr (.head _)
        · exact .inl member
      · exact .inr (.tail _ member)

end Statechart.Keyed
