/-
# Year, month and day of a date

The year, the month and the day that are computed for a date exist, and they give the date back. A
year that begins in March is cut into months of 31 and 30 days in a fixed pattern, whatever the
year, so that only its last month, February, has to know whether the year is a leap year.
-/

import Mathlib.Tactic.IntervalCases
import Targeting.Proofs.Calendar.Clock
import Targeting.Proofs.Calendar.Year

namespace Targeting.Calendar

namespace Date

/-- From January and February the days are counted from the first of March of the year before. -/
theorem dayNumber_ofCivil_early (year : Int) {month : Nat} (hmonth : month ≤ 2) (day : Nat) :
    (ofCivil year month day).dayNumber =
      firstOfMarch (year - 1) + (153 * (month + 9 : Int) + 2) / 5 + day - 1 := by
  rw [ofCivil, if_pos hmonth, if_pos hmonth, firstOfMarch]
  dsimp only
  omega

variable {date : Date} {march ofYear : Int}

/-- The date is that of its year, month and day. -/
theorem ofCivil_civil (date : Date) : ofCivil date.year date.month date.day = date := by
  obtain ⟨march, ofYear, h⟩ := date.exists_isMarchDay
  obtain ⟨hnumber, hofYear, hyear, hmonth, hday⟩ := h
  refine congrArg Date.mk (Eq.trans ?_ hnumber.symm : (ofCivil _ _ _).dayNumber = date.dayNumber)
  by_cases hlate : (5 * ofYear + 2) / 153 < 10
  · rw [if_pos hlate] at hyear hmonth
    have hindex : (date.month - 3 : Int) = (5 * ofYear + 2) / 153 := by omega
    rw [dayNumber_ofCivil date.year (by omega) date.day, hyear, hindex, Int.add_zero]
    omega
  · rw [if_neg hlate] at hyear hmonth
    have hindex : (date.month + 9 : Int) = (5 * ofYear + 2) / 153 := by omega
    rw [dayNumber_ofCivil_early date.year (by omega) date.day, hyear, hindex, Int.add_sub_cancel]
    omega

/-- The days of a month in the year that begins in March, months counted from March as well. -/
theorem daysInMonth_eq (year : Int) {month : Nat} (hmonth : 1 ≤ month ∧ month ≤ 12)
    (hother : month ≠ 2) :
    (daysInMonth year month : Int) =
      (153 * ((month + 9) % 12 + 1 : Int) + 2) / 5 - (153 * ((month + 9) % 12 : Int) + 2) / 5 := by
  obtain ⟨hfrom, huntil⟩ := hmonth
  interval_cases month <;> first | exact absurd rfl hother | rfl

theorem daysInMonth_two {year : Int} :
    daysInMonth year 2 = if isLeapYear year then 29 else 28 := rfl

/-- The month and the day of a date exist. -/
theorem exists_civil (date : Date) : 1 ≤ date.month ∧ date.month ≤ 12 ∧ 1 ≤ date.day ∧
    date.day ≤ daysInMonth date.year date.month := by
  obtain ⟨march, ofYear, h⟩ := date.exists_isMarchDay
  obtain ⟨-, ⟨hfrom, huntil⟩, hyear, hmonth, hday⟩ := h
  have hrange : 1 ≤ date.month ∧ date.month ≤ 12 := by
    split at hmonth <;> omega
  refine ⟨hrange.1, hrange.2, by omega, ?_⟩
  by_cases hfebruary : date.month = 2
  · have hpassed : (5 * ofYear + 2) / 153 = 11 := by
      split at hmonth <;> omega
    rw [hpassed] at hyear hday
    rw [if_neg (by decide : ¬ (11 : Int) < 10)] at hyear
    rw [hfebruary, daysInMonth_two, hyear]
    split
    case isTrue => omega
    case isFalse hcommon =>
      have hshort : ofYear < 365 := huntil.resolve_right fun h => hcommon h.2
      omega
  · have hdays := daysInMonth_eq date.year hrange hfebruary
    have hindex : (date.month + 9 : Int) % 12 = (5 * ofYear + 2) / 153 := by
      split at hmonth <;> omega
    rw [hindex] at hdays
    omega

theorem ofCivil?_civil (hyear : minYear ≤ date.year ∧ date.year ≤ maxYear) :
    ofCivil? date.year date.month date.day = some date := by
  obtain ⟨hmonth, hmonth', hday, hday'⟩ := date.exists_civil
  rw [ofCivil?, if_pos ⟨hyear.1, hyear.2, hmonth, hmonth', hday, hday'⟩, ofCivil_civil]

end Date

end Targeting.Calendar
