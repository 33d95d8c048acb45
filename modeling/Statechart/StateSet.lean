/-!
# Sets of states

Finite sets of positions, held in increasing order, which is document order. Two
sets with the same members are equal.
-/

namespace Statechart

structure StateSet where
  toList : List Nat
  increasing : toList.Pairwise (· < ·)
  deriving DecidableEq

namespace StateSet

def empty : StateSet := ⟨[], .nil⟩

instance : Inhabited StateSet := ⟨empty⟩

def contains (set : StateSet) (n : Nat) : Bool := set.toList.contains n

instance : Membership Nat StateSet := ⟨fun set n => n ∈ set.toList⟩

theorem mem_toList {set : StateSet} {n : Nat} : n ∈ set.toList ↔ n ∈ set := Iff.rfl

theorem contains_iff {set : StateSet} {n : Nat} : set.contains n = true ↔ n ∈ set :=
  List.contains_iff_mem

@[simp]
theorem not_mem_empty {n : Nat} : n ∉ empty := List.not_mem_nil

instance (set : StateSet) (n : Nat) : Decidable (n ∈ set) :=
  inferInstanceAs (Decidable (n ∈ set.toList))

@[ext]
theorem ext {a b : StateSet} (same : ∀ n, n ∈ a ↔ n ∈ b) : a = b := by
  obtain ⟨first, firstIncreasing⟩ := a
  obtain ⟨second, secondIncreasing⟩ := b
  have perm : first.Perm second :=
    (List.perm_ext_iff_of_nodup (firstIncreasing.imp Nat.ne_of_lt)
      (secondIncreasing.imp Nat.ne_of_lt)).2 same
  have equal : first = second :=
    perm.eq_of_pairwise (fun _ _ _ _ less greater => absurd less (Nat.lt_asymm greater))
      firstIncreasing secondIncreasing
  subst equal
  rfl

def size (set : StateSet) : Nat := set.toList.length

def isEmpty (set : StateSet) : Bool := set.toList.isEmpty

/-- Inserts a position into an increasing list; one that is there is not repeated. -/
def place (n : Nat) : List Nat → List Nat
  | [] => [n]
  | head :: rest =>
    if n < head then n :: head :: rest
    else if n = head then head :: rest
    else head :: place n rest

theorem mem_place {n m : Nat} {list : List Nat} : m ∈ place n list ↔ m = n ∨ m ∈ list := by
  induction list with
  | nil => simp [place]
  | cons head rest ih =>
      simp only [place]
      split
      · simp
      · split
        · next same => simp [same]
        · simp only [List.mem_cons, ih]
          constructor
          · rintro (h | h | h) <;> simp [h]
          · rintro (h | h | h) <;> simp [h]

theorem increasing_place {n : Nat} {list : List Nat} (increasing : list.Pairwise (· < ·)) :
    (place n list).Pairwise (· < ·) := by
  induction list with
  | nil => simp [place]
  | cons head rest ih =>
      obtain ⟨below, tail⟩ := List.pairwise_cons.1 increasing
      simp only [place]
      split
      · next less =>
        refine List.pairwise_cons.2 ⟨fun m member => ?_, increasing⟩
        rcases List.mem_cons.1 member with rfl | member
        · exact less
        · exact Nat.lt_trans less (below m member)
      · split
        · exact increasing
        · refine List.pairwise_cons.2 ⟨fun m member => ?_, ih tail⟩
          rcases mem_place.1 member with rfl | member
          · omega
          · exact below m member

def insert (n : Nat) (set : StateSet) : StateSet :=
  ⟨place n set.toList, increasing_place set.increasing⟩

theorem mem_insert {n m : Nat} {set : StateSet} : m ∈ set.insert n ↔ m = n ∨ m ∈ set := mem_place

def insertAll (list : List Nat) (set : StateSet) : StateSet :=
  list.foldl (fun set n => set.insert n) set

theorem mem_insertAll {list : List Nat} {m : Nat} {set : StateSet} :
    m ∈ set.insertAll list ↔ m ∈ list ∨ m ∈ set := by
  induction list generalizing set with
  | nil => simp [insertAll]
  | cons n rest ih =>
      rw [insertAll, List.foldl_cons, ← insertAll, ih, mem_insert, List.mem_cons]
      constructor
      · rintro (h | h | h) <;> simp [h]
      · rintro ((h | h) | h) <;> simp [h]

def ofList (list : List Nat) : StateSet := empty.insertAll list

theorem mem_ofList {list : List Nat} {m : Nat} : m ∈ ofList list ↔ m ∈ list := by
  rw [ofList, mem_insertAll]
  exact ⟨fun h => h.resolve_right List.not_mem_nil, .inl⟩

def union (a b : StateSet) : StateSet := a.insertAll b.toList

theorem mem_union {a b : StateSet} {m : Nat} : m ∈ a.union b ↔ m ∈ a ∨ m ∈ b := by
  rw [union, mem_insertAll, mem_toList, or_comm]

def filter (keep : Nat → Bool) (set : StateSet) : StateSet :=
  ⟨set.toList.filter keep, set.increasing.filter keep⟩

theorem mem_filter {keep : Nat → Bool} {set : StateSet} {m : Nat} :
    m ∈ set.filter keep ↔ m ∈ set ∧ keep m = true := List.mem_filter

def isDisjoint (a b : StateSet) : Bool := a.toList.all fun n => !b.contains n

theorem isDisjoint_iff {a b : StateSet} : a.isDisjoint b = true ↔ ∀ n ∈ a, n ∉ b := by
  simp [isDisjoint, contains, Membership.mem]

end StateSet

end Statechart
