import Statechart.Uuid

/-!
# Reading back identifiers

The 32 hexadecimal digits of an identifier name its bits, and the hyphens between them are
passed over.
-/

namespace Statechart.Uuid

theorem hexDigit?_digitChar {d : Nat} (small : d < 16) : hexDigit? (Nat.digitChar d) = some d := by
  have each : ∀ d < 16, hexDigit? (Nat.digitChar d) = some d := by decide
  exact each d small

theorem length_digits (count n : Nat) : (digits count n).length = count := by
  induction count generalizing n with
  | zero => rfl
  | succ count ih => rw [digits, List.length_append, ih, List.length_singleton]

/-- As many digits as a number has name the number. -/
theorem exists_mapM_digits {count n : Nat} (fits : n < Nat.pow 16 count) :
    ∃ values, (digits count n).mapM hexDigit? = some values ∧ values.length = count ∧
      values.foldl (fun value d => value * 16 + d) 0 = n := by
  induction count generalizing n with
  | zero =>
      obtain rfl : n = 0 := Nat.lt_one_iff.1 fits
      exact ⟨[], rfl, rfl, rfl⟩
  | succ count ih =>
      have fits : n < Nat.pow 16 count * 16 := fits
      obtain ⟨values, reads, length, value⟩ := ih (n := n / 16) (by omega)
      have last := hexDigit?_digitChar (Nat.mod_lt n (show 0 < 16 by decide))
      refine ⟨values ++ [n % 16], ?_, by rw [List.length_append, length]; rfl, ?_⟩
      · rw [digits, List.mapM_append, reads, List.mapM_cons, last]
        rfl
      · rw [List.foldl_append, value, List.foldl_cons, List.foldl_nil]
        omega

theorem ofDigits?_digits (id : Uuid) : ofDigits? (digits 32 id.bits.toNat) = some id := by
  obtain ⟨values, reads, length, value⟩ := @exists_mapM_digits 32 _ id.bits.isLt
  rw [ofDigits?, reads]
  simp [length, value]

/-- No character of a stretch that lies between the hyphens is dropped. -/
theorem map_filter_zipIdx {stretch : List Char} {start : Nat}
    (apart : ∀ place ∈ hyphenPlaces, place < start ∨ start + stretch.length ≤ place) :
    ((stretch.zipIdx start).filter fun entry => !hyphenPlaces.contains entry.2).map (·.1) =
      stretch := by
  have kept : ∀ entry ∈ stretch.zipIdx start, (!hyphenPlaces.contains entry.2) = true := by
    rintro ⟨_, index⟩ member
    obtain ⟨after, before, _⟩ := List.mem_zipIdx member
    simp only [Bool.not_eq_true', ← Bool.not_eq_true, List.contains_iff_mem]
    intro isPlace
    have := apart index isPlace
    omega
  rw [List.filter_eq_self.2 kept, List.zipIdx_map_fst]

/-- A hyphen in its place is dropped. -/
theorem map_filter_zipIdx_cons {c : Char} {stretch : List Char} {start : Nat}
    (isPlace : start ∈ hyphenPlaces)
    (apart : ∀ place ∈ hyphenPlaces, place < start + 1 ∨ start + 1 + stretch.length ≤ place) :
    (((c :: stretch).zipIdx start).filter fun entry => !hyphenPlaces.contains entry.2).map (·.1) =
      stretch := by
  rw [List.zipIdx_cons, List.filter_cons_of_neg (by simpa using isPlace), map_filter_zipIdx apart]

/-- Hyphens stand where they are looked for, and what is left without them is the digits. -/
theorem ofHyphenated?_groups {a b c d e : List Char} (aLength : a.length = 8)
    (bLength : b.length = 4) (cLength : c.length = 4) (dLength : d.length = 4)
    (eLength : e.length = 12) :
    ofHyphenated? (a ++ '-' :: b ++ '-' :: c ++ '-' :: d ++ '-' :: e) =
      ofDigits? (a ++ b ++ c ++ d ++ e) := by
  have hyphens : hyphenPlaces.all fun place =>
      (a ++ '-' :: b ++ '-' :: c ++ '-' :: d ++ '-' :: e)[place]? == some '-' := by
    simp [hyphenPlaces, List.getElem?_append, aLength, bLength, cLength, dLength]
  rw [ofHyphenated?, if_pos ⟨by simp [aLength, bLength, cLength, dLength, eLength], hyphens⟩]
  simp only [List.zipIdx_append, List.filter_append, List.map_append, List.length_append,
    List.length_cons, aLength, bLength, cLength, dLength]
  rw [map_filter_zipIdx (by simp [hyphenPlaces, aLength]),
    map_filter_zipIdx_cons (by decide) (by simp [hyphenPlaces, bLength]),
    map_filter_zipIdx_cons (by decide) (by simp [hyphenPlaces, cLength]),
    map_filter_zipIdx_cons (by decide) (by simp [hyphenPlaces, dLength]),
    map_filter_zipIdx_cons (by decide) (by simp [hyphenPlaces, eLength])]

/-- Written and read, an identifier is the same identifier. -/
theorem ofText?_written (id : Uuid) : ofText? id.text = some id := by
  generalize isAll : digits 32 id.bits.toNat = all
  have length : all.length = 32 := isAll ▸ length_digits 32 id.bits.toNat
  have chunk : ∀ place, (all.drop place).take 4 ++ all.drop (place + 4) = all.drop place := by
    intro place
    rw [← List.drop_drop, List.take_append_drop]
  have groups : all.take 8 ++ (all.drop 8).take 4 ++ (all.drop 12).take 4 ++
      (all.drop 16).take 4 ++ all.drop 20 = all := by
    simp only [List.append_assoc]
    rw [chunk 16, chunk 12, chunk 8, List.take_append_drop]
  have reads := ofHyphenated?_groups (a := all.take 8) (b := (all.drop 8).take 4)
    (c := (all.drop 12).take 4) (d := (all.drop 16).take 4) (e := all.drop 20)
    (by simp [length]) (by simp [length]) (by simp [length]) (by simp [length])
    (by simp [length])
  rw [groups, ← isAll, ofDigits?_digits, isAll] at reads
  simp only [ofText?, text, String.toList_ofList, isAll]
  rw [if_neg (by simp [length]), if_pos (by simp [length]), reads]

end Statechart.Uuid
