import Statechart.Json.Number

/-!
# Numerals of integers

An integer is written as its decimal digits behind an optional sign. Read back, the text is
a numeral without a point or an exponent, and the numeral names the integer again.
-/

namespace Statechart.Json

namespace Numeral

/-- The decimal digits of a natural number, first digit first. -/
def digitValues (n : Nat) : List Nat :=
  (Nat.toDigits 10 n).map fun c => c.toNat - '0'.toNat

/-- The numeral that an integer is written as. -/
def ofInteger (i : Int) : Numeral := ⟨decide (i < 0), digitValues i.natAbs, none, none⟩

theorem isDigit_of_mem_toDigits {n : Nat} {c : Char} (member : c ∈ Nat.toDigits 10 n) :
    c.isDigit = true :=
  Nat.isDigit_of_mem_toDigits (by decide) (by decide) member

theorem digit?_of_isDigit {c : Char} (digit : c.isDigit = true) :
    digit? c = some (c.toNat - '0'.toNat) := by
  simp only [Char.isDigit, Bool.and_eq_true, decide_eq_true_eq] at digit
  exact if_pos digit

/-- A text of digits alone is split off whole. -/
theorem splitDigits_of_isDigit {text : List Char} (digits : ∀ c ∈ text, c.isDigit = true) :
    splitDigits text = (text.map fun c => c.toNat - '0'.toNat, []) := by
  induction text with
  | nil => rfl
  | cons c rest ih =>
      rw [splitDigits, digit?_of_isDigit (digits c (.head _)),
        ih fun other member => digits other (.tail _ member)]
      rfl

theorem digitValues_ne_nil (n : Nat) : digitValues n ≠ [] := by
  simpa only [digitValues, ne_eq, List.map_eq_nil_iff] using Nat.toDigits_ne_nil

theorem digitValues_eq (n : Nat) :
    digitValues n = if n < 10 then [n] else digitValues (n / 10) ++ [n % 10] := by
  have value : ∀ {d}, d < 10 → (Nat.digitChar d).toNat - '0'.toNat = d :=
    Nat.toNat_digitChar_sub_48_of_lt_ten
  rw [digitValues, Nat.toDigits_eq_if (by decide)]
  split
  · next small => simp only [List.map_cons, List.map_nil, value small]
  · rw [List.map_append, List.map_cons, List.map_nil, value (Nat.mod_lt n (by decide))]
    rfl

theorem valueOf_digitValues (n : Nat) : valueOf (digitValues n) = n := by
  induction n using Nat.strongRecOn with
  | ind n ih =>
      rw [digitValues_eq]
      split
      · simp [valueOf]
      · next large =>
        have shorter := ih (n / 10) (by omega)
        rw [valueOf] at shorter ⊢
        rw [List.foldl_append, shorter, List.foldl_cons, List.foldl_nil]
        omega

/-- No zero stands in front of a positive number. -/
theorem head?_digitValues {n : Nat} (positive : 0 < n) : (digitValues n).head? ≠ some 0 := by
  induction n using Nat.strongRecOn with
  | ind n ih =>
      rw [digitValues_eq]
      split
      · rw [List.head?_cons]
        exact fun zero => absurd (Option.some.inj zero) (by omega)
      · next large =>
        rw [List.head?_append, List.head?_eq_some_head (digitValues_ne_nil _), Option.some_or,
          ← List.head?_eq_some_head (digitValues_ne_nil _)]
        exact ih (n / 10) (by omega) (by omega)

theorem wholeAllowed_digitValues (n : Nat) : wholeAllowed (digitValues n) = true := by
  by_cases positive : 0 < n
  · have notZero := head?_digitValues positive
    match found : digitValues n with
    | [] => exact absurd found (digitValues_ne_nil n)
    | [_] => rfl
    | first :: second :: rest => simpa [wholeAllowed, found] using notZero
  · obtain rfl : n = 0 := by omega
    rfl

theorem unsignedOf?_toDigits (negative : Bool) (n : Nat) :
    unsignedOf? negative (Nat.toDigits 10 n) = some ⟨negative, digitValues n, none, none⟩ := by
  have split := splitDigits_of_isDigit fun c (member : c ∈ Nat.toDigits 10 n) =>
    isDigit_of_mem_toDigits member
  rw [unsignedOf?, split]
  exact if_pos (wholeAllowed_digitValues n)

theorem ofText?_integerText (i : Int) :
    ofText? (Binary64.integerText i) = some (ofInteger i) := by
  unfold Binary64.integerText Binary64.digitsOf
  split
  · next negative => simp only [ofText?, unsignedOf?_toDigits, ofInteger, negative, decide_true]
  · next notNegative =>
    have unsigned : ofText? (Nat.toDigits 10 i.natAbs) =
        unsignedOf? false (Nat.toDigits 10 i.natAbs) := by
      unfold ofText?
      split
      · next text signed =>
        have member : '-' ∈ Nat.toDigits 10 i.natAbs := by
          rw [signed]
          exact .head text
        exact absurd (isDigit_of_mem_toDigits member) (by decide)
      · rfl
    rw [unsigned, unsignedOf?_toDigits]
    simp only [ofInteger, notNegative, decide_false]

theorem integer?_ofInteger (i : Int) : (ofInteger i).integer? = some i := by
  simp only [integer?, ofInteger, valueOf_digitValues, decide_eq_true_eq]
  split
  · next negative =>
    rw [if_neg (by omega)]
    exact congrArg some (by omega)
  · exact congrArg some (by omega)

/-- Written and read, an integer of a word is the same number. -/
theorem number?_ofInteger {i : Int} (inRange : InWordRange i) :
    (ofInteger i).number? = some (.integer i inRange) := by
  simp only [number?, integer?_ofInteger, Option.bind_some, Number.ofInt?, dif_pos inRange]

end Numeral

end Statechart.Json
