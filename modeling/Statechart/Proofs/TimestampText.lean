import Statechart.Proofs.Calendar
import Statechart.Proofs.Numerals

/-!
# Reading back timestamps

Every number of a timestamp is written at its full width, so that the reader takes all of its
digits and no more, and the date and the time of day name the instant again.
-/

namespace Statechart.Timestamp

/-! ## Digits -/

section Digits

variable {text rest : List Char} {count width n : Nat}

theorem takeDigits_append (digits : ∀ c ∈ text, c.isDigit = true) (fits : text.length ≤ count)
    (stops : takeDigits (count - text.length) rest = ([], rest)) :
    takeDigits count (text ++ rest) = (text.map fun c => c.toNat - '0'.toNat, rest) := by
  induction text generalizing count with
  | nil => exact stops
  | cons c text ih =>
      obtain ⟨count, rfl⟩ : ∃ fewer, count = fewer + 1 := ⟨count - 1, by
        rw [List.length_cons] at fits
        omega⟩
      have isDigit : digit? c = some (c.toNat - '0'.toNat) :=
        Json.Numeral.digit?_of_isDigit (digits c (.head _))
      have others := ih (fun other member => digits other (.tail _ member))
        (Nat.le_of_succ_le_succ fits) (by simpa using stops)
      rw [List.cons_append, takeDigits, isDigit, others]
      rfl

theorem trimFront_of_isDigit (digits : ∀ c ∈ text, c.isDigit = true) (nonempty : text ≠ []) :
    Text.trimFront (text ++ rest) = text ++ rest := by
  obtain ⟨c, text, rfl⟩ := List.exists_cons_of_ne_nil nonempty
  have isDigit := digits c (.head _)
  have notBlank : Text.isBlank c = false := by
    simp only [Char.isDigit, Bool.and_eq_true, decide_eq_true_eq] at isDigit
    obtain ⟨least, most⟩ := isDigit
    have least : 48 ≤ c.toNat := least
    have most : c.toNat ≤ 57 := most
    simp only [Text.isBlank, Bool.or_eq_false_iff, Bool.and_eq_false_iff, decide_eq_false_iff_not,
      beq_eq_false_iff_ne]
    omega
  rw [Text.trimFront, List.cons_append, List.dropWhile_cons_of_neg (by simp [notBlank])]

theorem isDigit_of_mem_padded {c : Char} (member : c ∈ padded width n) : c.isDigit = true := by
  obtain zero | digit := List.mem_append.1 member
  · rw [List.eq_of_mem_replicate zero]
    rfl
  · exact Json.Numeral.isDigit_of_mem_toDigits digit

theorem length_padded (positive : 0 < width) (fits : n < Nat.pow 10 width) :
    (padded width n).length = width := by
  have short := (Nat.length_toDigits_le_iff (by decide) positive).2 fits
  rw [padded, List.length_append, List.length_replicate]
  exact Nat.sub_add_cancel short

theorem valueOf_padded (width n : Nat) :
    valueOf ((padded width n).map fun c => c.toNat - '0'.toNat) = n := by
  have zeros (k : Nat) : valueOf (List.replicate k 0) = 0 := by
    induction k with
    | zero => rfl
    | succ k ih => exact ih
  have digits : (Json.Numeral.digitValues n).foldl (fun value d => value * 10 + d) 0 = n :=
    Json.Numeral.valueOf_digitValues n
  rw [padded, List.map_append, List.map_replicate, valueOf, List.foldl_append]
  exact (congrArg (List.foldl _ · _) (zeros _)).trans digits

theorem padded_ne_nil : padded width n ≠ [] := by
  rw [padded, ne_eq, List.append_eq_nil_iff]
  exact fun empty => Nat.toDigits_ne_nil empty.2

theorem trimFront_padded : Text.trimFront (padded width n ++ rest) = padded width n ++ rest :=
  trimFront_of_isDigit (fun _ => isDigit_of_mem_padded) padded_ne_nil

theorem takeDigits_padded (positive : 0 < width) (fits : n < Nat.pow 10 width)
    (within : width ≤ count) (stops : takeDigits (count - width) rest = ([], rest)) :
    takeDigits count (padded width n ++ rest) =
      ((padded width n).map fun c => c.toNat - '0'.toNat, rest) := by
  have length := length_padded positive fits
  exact takeDigits_append (fun _ => isDigit_of_mem_padded) (by rwa [length]) (by rwa [length])

theorem number?_padded (positive : 0 < width) (fits : n < Nat.pow 10 width) :
    number? width (padded width n ++ rest) = some (n, rest) := by
  have stops : takeDigits (width - width) rest = ([], rest) := by
    rw [Nat.sub_self, takeDigits]
  rw [number?, trimFront_padded, takeDigits_padded positive fits (Nat.le_refl _) stops]
  split
  · next none => exact absurd (List.map_eq_nil_iff.1 (Prod.mk.inj none).1) padded_ne_nil
  · next found =>
    obtain ⟨rfl, rfl⟩ := Prod.mk.inj found
    rw [valueOf_padded]

/-- A separator is taken, and no digit behind it. -/
theorem separator?_padded {c : Char} (notBlank : Text.isBlank c = false) :
    separator? c (c :: (padded width n ++ rest)) = some (padded width n ++ rest) := by
  rw [separator?, Text.trimFront, List.dropWhile_cons_of_neg (by simp [notBlank])]
  simp only [if_true, trimFront_padded]

end Digits

/-! ## Dates and fractions -/

theorem year?_padded {n : Nat} {rest : List Char} (fits : n < 10000) :
    year? (padded 4 n ++ rest) = some ((n : Int), rest) := by
  have reads : number? 4 (padded 4 n ++ rest) = some (n, rest) := number?_padded (by decide) fits
  have unsigned : ∀ c text, padded 4 n ++ rest = c :: text → c.isDigit = true := by
    intro c text starts
    obtain ⟨head, tail, isPadded⟩ :=
      List.exists_cons_of_ne_nil (show padded 4 n ≠ [] from padded_ne_nil)
    have isHead : head = c := by
      rw [isPadded] at starts
      exact (List.cons.inj starts).1
    have member : head ∈ padded 4 n := by
      rw [isPadded]
      exact .head tail
    exact isHead ▸ isDigit_of_mem_padded member
  rw [year?, trimFront_padded]
  split
  · next signed => exact absurd (unsigned _ _ signed) (by decide)
  · next signed => exact absurd (unsigned _ _ signed) (by decide)
  · rw [reads]
    rfl

theorem fraction?_padded {width n : Nat} (positive : 0 < width) (within : width ≤ 9)
    (fits : n < Nat.pow 10 width) :
    fraction? ('.' :: padded width n ++ ['Z']) = some (n * Nat.pow 10 (9 - width), ['Z']) := by
  have stops (count : Nat) : takeDigits count ['Z'] = ([], ['Z']) := by
    cases count <;> rfl
  rw [List.cons_append, fraction?, takeDigits_padded positive fits within (stops _)]
  split
  · next none => exact absurd (List.map_eq_nil_iff.1 (Prod.mk.inj none).1) padded_ne_nil
  · next found =>
    obtain ⟨rfl, rfl⟩ := Prod.mk.inj found
    rw [valueOf_padded, List.length_map, length_padded positive fits]
    rfl

theorem fraction?_fractionText {nano : Nat} (small : nano < 1000000000) :
    fraction? (fractionText nano ++ ['Z']) = some (nano, ['Z']) := by
  rw [fractionText]
  by_cases zero : nano = 0
  · rw [if_pos zero, zero]
    rfl
  rw [if_neg zero]
  by_cases millis : nano % 1000000 = 0
  · have fits : nano / 1000000 < Nat.pow 10 3 := show _ < 1000 by omega
    have whole : nano / 1000000 * Nat.pow 10 (9 - 3) = nano := show _ * 1000000 = _ by omega
    rw [if_pos millis, fraction?_padded (by decide) (by decide) fits, whole]
  rw [if_neg millis]
  by_cases micros : nano % 1000 = 0
  · have fits : nano / 1000 < Nat.pow 10 6 := show _ < 1000000 by omega
    have whole : nano / 1000 * Nat.pow 10 (9 - 6) = nano := show _ * 1000 = _ by omega
    rw [if_pos micros, fraction?_padded (by decide) (by decide) fits, whole]
  · have whole : nano * Nat.pow 10 (9 - 9) = nano := Nat.mul_one nano
    rw [if_neg micros, fraction?_padded (by decide) (by decide) small, whole]

/-! ## Instants -/

/-- The year in which an instant lies. -/
def year (t : Timestamp) : Int := (dateOfDay t.day).1

/-- The second lies in the day, and only the last second of a minute may be a leap second. -/
structure Regular (t : Timestamp) : Prop where
  second_lt : t.second < 86400
  nano_lt : t.nano < 2000000000
  leap : 1000000000 ≤ t.nano → t.second % 60 = 59

instance (t : Timestamp) : Decidable t.Regular :=
  decidable_of_iff (t.second < 86400 ∧ t.nano < 2000000000 ∧
      (1000000000 ≤ t.nano → t.second % 60 = 59))
    ⟨fun ⟨second_lt, nano_lt, leap⟩ => ⟨second_lt, nano_lt, leap⟩,
      fun ⟨second_lt, nano_lt, leap⟩ => ⟨second_lt, nano_lt, leap⟩⟩

/-- The date and the time of day of an instant name the instant. -/
theorem ofLocal?_fields {t : Timestamp} {month day : Nat} (regular : t.Regular)
    (date : dateOfDay t.day = (t.year, month, day)) (fromYear : 0 ≤ t.year)
    (toYear : t.year ≤ 9999) :
    ofLocal? t.year month day (t.second / 3600) (t.second / 60 % 60)
      (t.second % 60 + t.nano / 1000000000) (t.nano % 1000000000) 0 = some t := by
  obtain ⟨second_lt, nano_lt, leap⟩ := regular
  obtain ⟨_, _, _, isDate, fromMonth, toMonth, fromDay, toDay, isDay⟩ := dateOfDay_spec t.day
  rw [date] at isDate
  obtain ⟨rfl, rfl, rfl⟩ : _ ∧ _ ∧ _ := by simpa only [Prod.mk.injEq] using isDate.symm
  have isLeap : (t.second % 60 + t.nano / 1000000000) / 60 = t.nano / 1000000000 := by omega
  have isSecond : t.second / 3600 * 3600 + t.second / 60 % 60 * 60 +
      (t.second % 60 + t.nano / 1000000000 - t.nano / 1000000000) = t.second := by omega
  have isNano : t.nano / 1000000000 * 1000000000 + t.nano % 1000000000 = t.nano :=
    Nat.div_add_mod' _ _
  have sameDay : (t.day * 86400 + (t.second : Int)) / 86400 = t.day := by omega
  have sameSecond : ((t.day * 86400 + (t.second : Int)) % 86400).toNat = t.second := by omega
  rw [ofLocal?, if_pos (by omega)]
  simp only [isLeap, isSecond, isNano, isDay, Int.sub_zero, sameDay, sameSecond]
  exact if_pos ⟨by rw [← Timestamp.year]; omega, by rw [← Timestamp.year]; omega⟩

theorem bind_of_eq_some {α β : Type} {found : Option α} {a : α} {next : α → Option β}
    (isFound : found = some a) : (found >>= next) = next a := by
  rw [isFound]
  rfl

/-- Written and read, an instant of a year of four digits is the same instant. -/
theorem ofText?_written {t : Timestamp} (regular : t.Regular) (fromYear : 0 ≤ t.year)
    (toYear : t.year ≤ 9999) : ofText? t.text = some t := by
  obtain ⟨year, month, day, date, fromMonth, toMonth, fromDay, toDay, _⟩ := dateOfDay_spec t.day
  obtain rfl : t.year = year := congrArg Prod.fst date
  have instant := ofLocal?_fields regular date fromYear toYear
  obtain ⟨second_lt, nano_lt, leap⟩ := regular
  have day_le : day ≤ 31 := by
    unfold daysInMonth at toDay
    split at toDay <;> split at toDay <;> omega
  obtain ⟨n, isYear⟩ := Int.eq_ofNat_of_zero_le fromYear
  have reads {n : Nat} {rest : List Char} (fits : n < 100) :
      number? 2 (padded 2 n ++ rest) = some (n, rest) := number?_padded (by decide) fits
  have fraction := fraction?_fractionText (show t.nano % 1000000000 < 1000000000 by omega)
  have yearWritten : yearText t.year = padded 4 n := by
    rw [yearText, if_pos ⟨fromYear, toYear⟩, isYear, Int.toNat_natCast]
  have dash : Text.isBlank '-' = false := rfl
  have colon : Text.isBlank ':' = false := rfl
  have zone : offset? (Text.trimFront ['Z']) = some (0, []) := rfl
  rw [ofText?, text, date]
  simp only [String.toList_ofList, yearWritten, List.append_assoc, List.cons_append]
  refine (bind_of_eq_some (year?_padded (by omega))).trans ?_
  refine (bind_of_eq_some (separator?_padded dash)).trans ?_
  refine (bind_of_eq_some (reads (by omega))).trans ?_
  refine (bind_of_eq_some (separator?_padded dash)).trans ?_
  refine (bind_of_eq_some (reads (by omega))).trans ?_
  refine (if_pos (Or.inl rfl)).trans ?_
  refine (bind_of_eq_some rfl).trans ?_
  refine (bind_of_eq_some (reads (by omega))).trans ?_
  refine (bind_of_eq_some (separator?_padded colon)).trans ?_
  refine (bind_of_eq_some (reads (by omega))).trans ?_
  refine (bind_of_eq_some (separator?_padded colon)).trans ?_
  refine (bind_of_eq_some (reads (by omega))).trans ?_
  refine (bind_of_eq_some fraction).trans ?_
  refine (bind_of_eq_some zone).trans ?_
  rw [← isYear]
  exact instant

end Statechart.Timestamp
