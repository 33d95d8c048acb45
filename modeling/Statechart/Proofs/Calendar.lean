import Statechart.Timestamp

/-!
# The calendar

A day of the proleptic Gregorian calendar is found in its cycle of 400 years by counting
centuries, leap cycles of four years, and years. Years are counted from March, so that a leap
day is the last of its year. Every day has a date, and the date names the day.
-/

namespace Statechart.Timestamp

/-- A day in a cycle of 400 years: the century, the leap cycle in it, the year in that and the
day of the year. Only the last year of a leap cycle has a day 365, and the last leap cycle of a
century has it only in the last century. -/
structure InCycle (century cycle year day : Nat) : Prop where
  century_le : century ≤ 3
  cycle_le : cycle ≤ 24
  year_le : year ≤ 3
  day_le : day ≤ 365
  leap : day = 365 → year = 3 ∧ (cycle = 24 → century = 3)

theorem exists_inCycle {dayOfEra : Nat} (inRange : dayOfEra < 146097) :
    ∃ century cycle year day, InCycle century cycle year day ∧
      dayOfEra = 36524 * century + 1461 * cycle + 365 * year + day := by
  by_cases isLast : dayOfEra = 146096
  · exact ⟨3, 24, 3, 365, ⟨by omega, by omega, by omega, by omega, by omega⟩, isLast⟩
  · by_cases isLeap : dayOfEra % 36524 % 1461 = 1460
    · exact ⟨dayOfEra / 36524, dayOfEra % 36524 / 1461, 3, 365,
        ⟨by omega, by omega, by omega, by omega, by omega⟩, by omega⟩
    · exact ⟨dayOfEra / 36524, dayOfEra % 36524 / 1461, dayOfEra % 36524 % 1461 / 365,
        dayOfEra % 36524 % 1461 % 365, ⟨by omega, by omega, by omega, by omega, by omega⟩,
        by omega⟩

section InCycle

variable {century cycle year day dayOfEra : Nat}

theorem InCycle.yearOfEra (inCycle : InCycle century cycle year day)
    (isDay : dayOfEra = 36524 * century + 1461 * cycle + 365 * year + day) :
    (dayOfEra - dayOfEra / 1460 + dayOfEra / 36524 - dayOfEra / 146096) / 365 =
      100 * century + 4 * cycle + year := by
  obtain ⟨century_le, cycle_le, year_le, day_le, leap⟩ := inCycle
  -- a day is passed over for every leap cycle, and one more where the next is nearly full
  have cycles : dayOfEra / 1460 =
      25 * century + cycle + (24 * century + cycle + 365 * year + day) / 1460 := by
    clear leap
    omega
  have carry : (24 * century + cycle + 365 * year + day) / 1460 ≤ day ∧
      day ≤ 364 + (24 * century + cycle + 365 * year + day) / 1460 := by
    clear cycles isDay
    omega
  have centuries : dayOfEra / 36524 = century + dayOfEra / 146096 := by
    have within : 1461 * cycle + 365 * year + day < 36524 ∨
        century = 3 ∧ 1461 * cycle + 365 * year + day = 36524 := by omega
    rw [Nat.add_assoc, Nat.add_assoc, ← Nat.add_assoc (1461 * cycle)] at isDay
    generalize 1461 * cycle + 365 * year + day = dayOfCentury at within isDay
    clear cycles carry leap
    rcases within with within | ⟨rfl, rfl⟩
    · have notLast : dayOfEra / 146096 = 0 := by omega
      omega
    · omega
  rw [cycles, centuries]
  generalize (24 * century + cycle + 365 * year + day) / 1460 = late at carry
  generalize dayOfEra / 146096 = last
  clear cycles centuries leap
  omega

/-- The days of the years before are taken off. -/
theorem InCycle.dayOfYear (inCycle : InCycle century cycle year day)
    (isDay : dayOfEra = 36524 * century + 1461 * cycle + 365 * year + day) :
    dayOfEra - (365 * (100 * century + 4 * cycle + year) + (100 * century + 4 * cycle + year) / 4 -
      (100 * century + 4 * cycle + year) / 100) = day := by
  obtain ⟨century_le, cycle_le, year_le, _, _⟩ := inCycle
  have leapYears : (100 * century + 4 * cycle + year) / 4 = 25 * century + cycle := by omega
  have centuries : (100 * century + 4 * cycle + year) / 100 = century := by omega
  omega

end InCycle

/-- The date of a day of a year that is counted from March. -/
def ofMarch (year : Int) (day : Nat) : Int × Nat × Nat :=
  let month := (5 * day + 2) / 153
  let dayOfMonth := day - (153 * month + 2) / 5 + 1
  if month < 10 then (year, month + 3, dayOfMonth) else (year + 1, month - 9, dayOfMonth)

section OfMarch

variable {century cycle year day dayOfEra : Nat} {era : Int}

/-- The day of the year lies in its month. -/
theorem month_bounds (day_le : day ≤ 365) :
    (5 * day + 2) / 153 ≤ 11 ∧ (153 * ((5 * day + 2) / 153) + 2) / 5 ≤ day ∧
      day < (153 * ((5 * day + 2) / 153 + 1) + 2) / 5 := by
  omega

theorem dateOfDay_eq (inCycle : InCycle century cycle year day)
    (isDay : dayOfEra = 36524 * century + 1461 * cycle + 365 * year + day)
    (inRange : dayOfEra < 146097) :
    dateOfDay (era * 146097 + dayOfEra - 719468) =
      ofMarch (era * 400 + (100 * century + 4 * cycle + year : Nat)) day := by
  have isEra : (era * 146097 + dayOfEra - 719468 + 719468) / 146097 = era := by omega
  have isDayOfEra :
      ((era * 146097 + dayOfEra - 719468 + 719468) % 146097).toNat = dayOfEra := by omega
  have month_le := (month_bounds inCycle.day_le).1
  simp only [dateOfDay, isEra, isDayOfEra, inCycle.yearOfEra isDay, inCycle.dayOfYear isDay,
    ofMarch]
  by_cases early : (5 * day + 2) / 153 < 10
  · simp [early]
  · simp [early]
    omega

theorem ofMarch_bounds (day_le : day ≤ 365) (marchYear : Int) :
    1 ≤ (ofMarch marchYear day).2.1 ∧ (ofMarch marchYear day).2.1 ≤ 12 ∧
      1 ≤ (ofMarch marchYear day).2.2 := by
  have month_le := (month_bounds day_le).1
  simp only [ofMarch]
  by_cases early : (5 * day + 2) / 153 < 10
  · simp only [if_pos early]
    omega
  · simp only [if_neg early]
    omega

/-- The last day of a long year is a leap day. -/
theorem isLeapYear_of_last (inCycle : InCycle century cycle year 365) (era : Int) :
    isLeapYear (era * 400 + (100 * century + 4 * cycle + year : Nat) + 1) = true := by
  obtain ⟨century_le, cycle_le, _, _, leap⟩ := inCycle
  obtain ⟨rfl, isLast⟩ := leap rfl
  simp only [isLeapYear, Bool.and_eq_true, Bool.or_eq_true, beq_iff_eq, bne_iff_ne]
  by_cases isEnd : cycle = 24
  · obtain rfl := isLast isEnd
    omega
  · omega

theorem le_daysInMonth (inCycle : InCycle century cycle year day) (era : Int) :
    let date := ofMarch (era * 400 + (100 * century + 4 * cycle + year : Nat)) day
    date.2.2 ≤ daysInMonth date.1 date.2.1 := by
  obtain ⟨month_le, fromFirst, toLast⟩ := month_bounds inCycle.day_le
  simp only [ofMarch]
  by_cases early : (5 * day + 2) / 153 < 10
  · rw [if_pos early, daysInMonth, if_neg (by simp only; omega)]
    simp only
    split <;> omega
  · rw [if_neg early]
    by_cases isFebruary : (5 * day + 2) / 153 = 11
    · rw [isFebruary] at fromFirst ⊢
      rw [daysInMonth, if_pos (by rfl)]
      by_cases isLast : day = 365
      · subst isLast
        exact Nat.le_of_eq (if_pos (isLeapYear_of_last inCycle era)).symm
      · have := inCycle.day_le
        simp only
        split <;> omega
    · obtain isJanuary : (5 * day + 2) / 153 = 10 := by omega
      rw [isJanuary] at toLast ⊢
      simp [daysInMonth]
      omega

theorem dayOfDate_ofMarch (inCycle : InCycle century cycle year day)
    (isDay : dayOfEra = 36524 * century + 1461 * cycle + 365 * year + day) (era : Int) :
    let date := ofMarch (era * 400 + (100 * century + 4 * cycle + year : Nat)) day
    dayOfDate date.1 date.2.1 date.2.2 = era * 146097 + dayOfEra - 719468 := by
  obtain ⟨month_le, fromFirst, toLast⟩ := month_bounds inCycle.day_le
  obtain ⟨century_le, cycle_le, year_le, _, _⟩ := inCycle
  have isEra : (era * 400 + (100 * century + 4 * cycle + year : Nat)) / 400 = era := by omega
  have isYearOfEra : (era * 400 + (100 * century + 4 * cycle + year : Nat)) % 400 =
      (100 * century + 4 * cycle + year : Nat) := by omega
  have isDayOfYear : (153 * ((5 * day + 2) / 153) + 2) / 5 +
      (day - (153 * ((5 * day + 2) / 153) + 2) / 5 + 1) - 1 = day := by omega
  simp only [ofMarch]
  by_cases early : (5 * day + 2) / 153 < 10
  · have later : ¬ (5 * day + 2) / 153 + 3 ≤ 2 := by omega
    have fromMarch : ((5 * day + 2) / 153 + 3 + 9) % 12 = (5 * day + 2) / 153 := by omega
    simp only [early, if_true, dayOfDate, later, if_false, fromMarch, isDayOfYear, isEra,
      isYearOfEra]
    omega
  · have soon : (5 * day + 2) / 153 - 9 ≤ 2 := by omega
    have fromMarch : ((5 * day + 2) / 153 - 9 + 9) % 12 = (5 * day + 2) / 153 := by omega
    simp only [early, if_false, dayOfDate, soon, if_true, fromMarch, isDayOfYear,
      Int.add_sub_cancel, isEra, isYearOfEra]
    omega

end OfMarch

/-- Every day has a date, and the date names the day. -/
theorem dateOfDay_spec (d : Int) :
    ∃ year month day, dateOfDay d = (year, month, day) ∧ 1 ≤ month ∧ month ≤ 12 ∧ 1 ≤ day ∧
      day ≤ daysInMonth year month ∧ dayOfDate year month day = d := by
  obtain ⟨dayOfEra, isDayOfEra⟩ :=
    Int.eq_ofNat_of_zero_le (Int.emod_nonneg (d + 719468) (b := 146097) (by decide))
  have inRange : dayOfEra < 146097 := by
    have := Int.emod_lt_of_pos (d + 719468) (b := 146097) (by decide)
    omega
  obtain ⟨century, cycle, year, day, inCycle, isDay⟩ := exists_inCycle inRange
  have isDate : (d + 719468) / 146097 * 146097 + dayOfEra - 719468 = d := by omega
  have date := @dateOfDay_eq _ _ _ _ _ ((d + 719468) / 146097) inCycle isDay inRange
  have names := dayOfDate_ofMarch inCycle isDay ((d + 719468) / 146097)
  rw [isDate] at date names
  obtain ⟨fromFirst, toLast, fromOne⟩ := ofMarch_bounds inCycle.day_le _
  exact ⟨_, _, _, date, fromFirst, toLast, fromOne, le_daysInMonth inCycle _, names⟩

end Statechart.Timestamp
