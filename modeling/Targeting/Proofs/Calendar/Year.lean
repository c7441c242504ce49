/-
# The year of a date

Dates are numbers, and their years are computed. The year that is computed for a date is
the only one whose days the date is among. The calendar repeats after 400 years, and the
computation takes these apart into centuries, groups of four years and single years, each
of which begins in March. The last of them may be a day longer, and this is where it could
go wrong.

The rule for the date on which a clock is changed, a weekday and which of them in the
month, names a day of that month in every year.
-/

import Mathlib.Logic.Basic
import Targeting.Calendar.Zone

namespace Targeting.Calendar

namespace Date

/-! ## Years that begin in March -/

/-- Number of the first of March of a year. -/
def firstOfMarch (year : Int) : Int :=
  year / 400 * 146097 + (year % 400 * 365 + year % 400 / 4 - year % 400 / 100) - 719468

theorem firstOfMarch_succ (year : Int) : firstOfMarch year + 365 ≤ firstOfMarch (year + 1) ∧
    firstOfMarch (year + 1) ≤ firstOfMarch year + 366 := by
  unfold firstOfMarch
  omega

theorem dayNumber_newYear (year : Int) :
    (newYear year).dayNumber = firstOfMarch (year - 1) + 306 := by
  rw [newYear, ofCivil, if_pos (by decide), if_pos (by decide), firstOfMarch]
  dsimp only
  omega

/-- From March on the days of a month are counted from the first of March of the same year. -/
theorem dayNumber_ofCivil (year : Int) {month : Nat} (hmonth : 3 ≤ month) (day : Nat) :
    (ofCivil year month day).dayNumber =
      firstOfMarch year + (153 * (month - 3 : Int) + 2) / 5 + day - 1 := by
  rw [ofCivil, if_neg (by omega), if_neg (by omega), firstOfMarch]
  dsimp only
  omega

/-- Later years begin later. -/
theorem newYear_le {first last : Int} (h : first ≤ last) :
    (newYear first).dayNumber ≤ (newYear last).dayNumber := by
  obtain ⟨years, rfl⟩ := Int.le.dest h
  clear h
  induction years with
  | zero => simp
  | succ years ih =>
      have hstep := (firstOfMarch_succ (first + years - 1)).1
      rw [Int.sub_add_cancel] at hstep
      rw [dayNumber_newYear, dayNumber_newYear] at ih ⊢
      rw [Int.natCast_succ, ← Int.add_assoc, Int.add_sub_cancel]
      omega

/-! ## The cycle of 400 years -/

/-- A day of the 400 years: after some centuries, groups of four years and years, a day of a year.
The extra day comes at the end of four years, but at the end of a century only after the fourth. -/
structure IsCycleDay (day century four single rest : Int) : Prop where
  day_eq : day = 36524 * century + 1461 * four + 365 * single + rest
  century_le : 0 ≤ century ∧ century ≤ 3
  four_le : 0 ≤ four ∧ four ≤ 24
  single_le : 0 ≤ single ∧ single ≤ 3
  rest_le : 0 ≤ rest ∧ (rest < 365 ∨ rest = 365 ∧ single = 3 ∧ (four < 24 ∨ century = 3))

theorem exists_isCycleDay (day : Int) (hday : 0 ≤ day ∧ day < 146097) :
    ∃ century four single rest, IsCycleDay day century four single rest := by
  have hcentury : ∃ century ofCentury, day = 36524 * century + ofCentury ∧ 0 ≤ century ∧
      century ≤ 3 ∧ 0 ≤ ofCentury ∧ (ofCentury < 36524 ∨ ofCentury = 36524 ∧ century = 3) :=
    ⟨min (day / 36524) 3, day - 36524 * min (day / 36524) 3, by omega⟩
  obtain ⟨century, ofCentury, hday, hcentury, hcentury', hof⟩ := hcentury
  have hsingle : ∃ single rest, ofCentury % 1461 = 365 * single + rest ∧ 0 ≤ single ∧
      single ≤ 3 ∧ 0 ≤ rest ∧ (rest < 365 ∨ rest = 365 ∧ single = 3) :=
    ⟨min (ofCentury % 1461 / 365) 3, ofCentury % 1461 - 365 * min (ofCentury % 1461 / 365) 3,
      by omega⟩
  obtain ⟨single, rest, hrest, hsingle⟩ := hsingle
  exact ⟨century, ofCentury / 1461, single, rest, by omega, by omega, by omega, by omega, by omega⟩

variable {day century four single rest : Int}

/-- The number of years that have passed of the 400. -/
theorem IsCycleDay.years (h : IsCycleDay day century four single rest) :
    (day - day / 1460 + day / 36524 - day / 146096) / 365 =
      100 * century + 4 * four + single := by
  obtain ⟨heq, hcentury, hfour, hsingle, hrest⟩ := h
  have hlong : day / 36524 - day / 146096 = century := by
    by_cases hlast : day < 146096
    · have hnone : day / 146096 = 0 := by omega
      have hpassed : day / 36524 = century := by omega
      omega
    · have hone : day / 146096 = 1 := by omega
      omega
  have hextra : day / 1460 = 25 * century + four ∨ day / 1460 = 25 * century + four + 1 := by
    omega
  have hyear : 365 * (100 * century + 4 * four + single) ≤ day - day / 1460 + century ∧
      day - day / 1460 + century < 365 * (100 * century + 4 * four + single) + 365 := by
    omega
  omega

/-- The day of the year that begins in March. -/
theorem IsCycleDay.dayOfYear (h : IsCycleDay day century four single rest) :
    let years := 100 * century + 4 * four + single
    day - (365 * years + years / 4 - years / 100) = rest := by
  obtain ⟨heq, hcentury, hfour, hsingle, hrest⟩ := h
  omega

/-! ## The year -/

theorem firstOfMarch_add (cycle : Int) {years : Int} (hyears : 0 ≤ years ∧ years < 400) :
    firstOfMarch (cycle * 400 + years) =
      cycle * 146097 + (365 * years + years / 4 - years / 100) - 719468 := by
  have hcycle : (cycle * 400 + years) / 400 = cycle := by omega
  have hrest : (cycle * 400 + years) % 400 = years := by omega
  rw [firstOfMarch, hcycle, hrest, Int.mul_comm years]

/-- A date is a day of a year that begins in March; the month and the day of the month are counted
from there. -/
structure IsMarchDay (date : Date) (march ofYear : Int) : Prop where
  dayNumber_eq : date.dayNumber = firstOfMarch march + ofYear
  ofYear_le : 0 ≤ ofYear ∧ (ofYear < 365 ∨ ofYear = 365 ∧ isLeapYear (march + 1))
  year_eq : date.year = march + if (5 * ofYear + 2) / 153 < 10 then 0 else 1
  month_eq : date.month = (if (5 * ofYear + 2) / 153 < 10 then (5 * ofYear + 2) / 153 + 3
    else (5 * ofYear + 2) / 153 - 9).toNat
  day_eq : date.day = (ofYear - (153 * ((5 * ofYear + 2) / 153) + 2) / 5 + 1).toNat

theorem isLeapYear_iff {year : Int} :
    isLeapYear year ↔ year % 4 = 0 ∧ (year % 100 ≠ 0 ∨ year % 400 = 0) := by
  simp [isLeapYear]

theorem exists_isMarchDay (date : Date) : ∃ march ofYear, date.IsMarchDay march ofYear := by
  obtain ⟨number⟩ := date
  let day := (number + 719468) % 146097
  let years := (day - day / 1460 + day / 36524 - day / 146096) / 365
  let ofYear := day - (365 * years + years / 4 - years / 100)
  obtain ⟨century, four, single, rest, h⟩ := exists_isCycleDay day (by omega)
  have hyears : years = 100 * century + 4 * four + single := h.years
  have hrest : ofYear = rest := by
    dsimp only [ofYear]
    rw [hyears]
    exact h.dayOfYear
  obtain ⟨-, hcentury, hfour, hsingle, hbounds⟩ := h
  refine ⟨(number + 719468) / 146097 * 400 + years, ofYear, ?_, ?_, rfl, rfl, rfl⟩
  · rw [firstOfMarch_add _ (by omega)]
    dsimp only [ofYear]
    omega
  · -- The 365th day is the last one of four years, and of a century only every fourth time.
    rw [isLeapYear_iff, hrest, hyears]
    omega

/-- A date is among the days of its year, and of no other. -/
theorem year_eq_iff {date : Date} {year : Int} : date.year = year ↔
    (newYear year).dayNumber ≤ date.dayNumber ∧
      date.dayNumber < (newYear (year + 1)).dayNumber := by
  have hwithin : (newYear date.year).dayNumber ≤ date.dayNumber ∧
      date.dayNumber < (newYear (date.year + 1)).dayNumber := by
    obtain ⟨march, ofYear, hnumber, ⟨hfrom, huntil⟩, hyear, -, -⟩ := date.exists_isMarchDay
    have hbefore := firstOfMarch_succ (march - 1)
    have hafter := firstOfMarch_succ march
    rw [hyear, dayNumber_newYear, dayNumber_newYear, hnumber]
    split
    · simp only [Int.add_zero, Int.add_sub_cancel, Int.sub_add_cancel] at hbefore ⊢
      omega
    · simp only [Int.add_sub_cancel]
      omega
  refine ⟨fun h => h ▸ hwithin, fun ⟨hfrom, huntil⟩ => ?_⟩
  refine Int.le_antisymm (Int.not_lt.1 fun hgt => ?_) (Int.not_lt.1 fun hlt => ?_)
  · have hle : (newYear (year + 1)).dayNumber ≤ (newYear date.year).dayNumber :=
      newYear_le (by omega)
    omega
  · have hle : (newYear (date.year + 1)).dayNumber ≤ (newYear year).dayNumber :=
      newYear_le (by omega)
    omega

end Date

/-! ## Rules for dates -/

theorem daysInMonth_bounds (year : Int) (month : Nat) :
    28 ≤ daysInMonth year month ∧ daysInMonth year month ≤ 31 := by
  unfold daysInMonth
  split
  · split <;> decide
  all_goals decide

/-- A rule names a day of its month, in every year. -/
theorem ChangeDay.exists_date_eq (change : ChangeDay) (hoccurrence : change.occurrence ≤ 5)
    (year : Int) :
    ∃ day, 1 ≤ day ∧ day ≤ 31 ∧ change.date year = Date.ofCivil year change.month day := by
  have hdays := daysInMonth_bounds year change.month
  refine ⟨_, ?_, ?_, rfl⟩
  · split <;> omega
  · split <;> omega

end Targeting.Calendar
