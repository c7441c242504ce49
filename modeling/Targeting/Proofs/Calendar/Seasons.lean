/-
# Clocks that are changed twice a year

A seasonal clock shows standard time or daylight time, and a year divides into stretches
between its two changes. In the seconds of UTC there are two of them: summer, from the
beginning of daylight time to its end, and winter, from there to the next beginning. In
the seconds on the clock there are four: the time that is skipped when the clock goes
forward and the time that is repeated when it goes back come between the other two. The
laws here name the stretch by its year and leave the calendar behind; winter lies in two
years.

The clock always goes on: a wall time that comes later on the clock than what it shows now
is also read as a later instant. This is so because the first reading of a repeated time is
the one in standard time, which is the later of the two.
-/

import Targeting.Proofs.Calendar.Clock
import Targeting.Proofs.Calendar.Year

namespace Targeting.Calendar

/-! ## Readings -/

/-- The offset of the first reading. -/
def Offsets.first? : Offsets → Option Int
  | skipped => none
  | once offset => some offset
  | twice first _ => some first

theorem WallTime.onClock?_eq_some {w : WallTime} {offset : Int} {c : ClockTime}
    (h : w.onClock? offset = some c) :
    c = ⟨⟨(w.seconds - offset) * 1000000 + (w.nanos / 1000 : Nat)⟩, offset⟩ := by
  rw [onClock?, instantAt?] at h
  split at h
  · exact (Option.some.inj h).symm
  · cases h

namespace Zone

variable {zone : Zone} {w : WallTime} {c : ClockTime}

theorem exists_of_firstReading? (h : zone.firstReading? w = some c) :
    ∃ offset, (zone.offsetsOf w.seconds).first? = some offset ∧ w.onClock? offset = some c := by
  rw [firstReading?] at h
  split at h
  case h_1 => cases h
  case h_2 offset hoffsets => exact ⟨offset, by rw [hoffsets]; rfl, h⟩
  case h_3 first second hoffsets =>
      obtain ⟨reading, hreading, h⟩ := Option.bind_eq_some_iff.1 h
      obtain ⟨_, -, h⟩ := Option.bind_eq_some_iff.1 h
      cases h
      exact ⟨first, by rw [hoffsets]; rfl, hreading⟩

theorem exists_of_onlyReading? (h : zone.onlyReading? w = some c) :
    ∃ offset, zone.offsetsOf w.seconds = .once offset ∧ w.onClock? offset = some c := by
  rw [onlyReading?] at h
  split at h
  case h_1 offset hoffsets => exact ⟨offset, hoffsets, h⟩
  case h_2 => cases h

end Zone

namespace Seasons

/-- The clock goes forward in March at the earliest and back in November at the latest, with a
month in between, and by less than a day. -/
structure Regular (s : Seasons) : Prop where
  begins : 3 ≤ s.begins.month ∧ s.begins.occurrence ≤ 5 ∧ s.beginsAt ≤ 86400
  apart : s.begins.month + 2 ≤ s.ends.month
  ends : s.ends.month ≤ 11 ∧ s.ends.occurrence ≤ 5 ∧ s.endsAt ≤ 86400
  ahead : s.standard < s.daylight ∧ s.daylight < s.standard + 86400
  short : -86400 < s.standard ∧ s.daylight < 86400

theorem eastern_regular : eastern.Regular where
  begins := by decide
  apart := by decide
  ends := by decide
  ahead := by decide
  short := by decide

/-- The second at which a year begins, on a clock. -/
def yearStart (year : Int) : Int := (Date.newYear year).dayNumber * secondsPerDay

theorem yearStart_le {first last : Int} (h : first ≤ last) : yearStart first ≤ yearStart last :=
  Int.mul_le_mul_of_nonneg_right (Date.newYear_le h) (by decide)

theorem year_eq {second : Int} (year : Int) (hfrom : yearStart year ≤ second)
    (huntil : second < yearStart (year + 1)) : (Date.mk (second / secondsPerDay)).year = year := by
  rw [Date.year_eq_iff]
  simp only [yearStart, secondsPerDay] at hfrom huntil ⊢
  omega

theorem exists_year (second : Int) :
    ∃ year, yearStart year ≤ second ∧ second < yearStart (year + 1) := by
  refine ⟨(Date.mk (second / secondsPerDay)).year, ?_⟩
  have hyear := Date.year_eq_iff.1 (rfl : (Date.mk (second / secondsPerDay)).year = _)
  simp only [yearStart, secondsPerDay] at hyear ⊢
  omega

variable {s : Seasons} {year second wall : Int}

/-- The changes of a year are at least ten days apart from each other and from the turns of the
year. -/
theorem Regular.spaced (h : s.Regular) (year : Int) :
    yearStart year + 864000 ≤ s.beginning year ∧ s.beginning year + 864000 ≤ s.ending year ∧
      s.ending year + 864000 ≤ yearStart (year + 1) := by
  obtain ⟨⟨hbegins, hbeginsRule, hbeginsAt⟩, hapart, ⟨hends, hendsRule, hendsAt⟩, -, -⟩ := h
  obtain ⟨first, hfirst, hfirst', hbeginsDate⟩ := s.begins.exists_date_eq hbeginsRule year
  obtain ⟨last, hlast, hlast', hendsDate⟩ := s.ends.exists_date_eq hendsRule year
  have hmarch := Date.firstOfMarch_succ (year - 1)
  rw [Int.sub_add_cancel] at hmarch
  simp only [beginning, ending, yearStart, hbeginsDate, hendsDate, secondsPerDay,
    Date.dayNumber_newYear, Date.dayNumber_ofCivil year hbegins,
    Date.dayNumber_ofCivil year (show 3 ≤ s.ends.month by omega), Int.add_sub_cancel]
  omega

/-! ## Instants -/

theorem offsetAt_summer (h : s.Regular) (year : Int) (hfrom : s.beginning year - s.standard ≤ second)
    (huntil : second < s.ending year - s.daylight) : s.offsetAt second = s.daylight := by
  have hspaced := h.spaced year
  have hshort := h.short
  have hahead := h.ahead
  rw [offsetAt, year_eq year (by omega) (by omega), if_pos ⟨hfrom, huntil⟩]

theorem offsetAt_winter (h : s.Regular) (year : Int) (hfrom : s.ending (year - 1) - s.daylight ≤ second)
    (huntil : second < s.beginning year - s.standard) : s.offsetAt second = s.standard := by
  have hlast := h.spaced (year - 1)
  have hspaced := h.spaced year
  have hshort := h.short
  have hahead := h.ahead
  rw [Int.sub_add_cancel] at hlast
  by_cases hyear : second < yearStart year
  · rw [offsetAt, year_eq (year - 1) (by omega) (by rwa [Int.sub_add_cancel]),
      if_neg (by omega)]
  · rw [offsetAt, year_eq year (by omega) (by omega), if_neg (by omega)]

/-- Every instant lies in a winter or in a summer. -/
theorem Regular.exists_stretch (h : s.Regular) (second : Int) : ∃ year,
    (s.ending (year - 1) - s.daylight ≤ second ∧ second < s.beginning year - s.standard) ∨
      (s.beginning year - s.standard ≤ second ∧ second < s.ending year - s.daylight) := by
  obtain ⟨year, hfrom, huntil⟩ := exists_year second
  have hlast := h.spaced (year - 1)
  have hspaced := h.spaced year
  have hnext := h.spaced (year + 1)
  have hshort := h.short
  have hahead := h.ahead
  rw [Int.sub_add_cancel] at hlast
  by_cases hends : second < s.ending year - s.daylight
  · exact ⟨year, by omega⟩
  · refine ⟨year + 1, .inl ?_⟩
    rw [Int.add_sub_cancel]
    omega

theorem offsetAt_eq_or (s : Seasons) (second : Int) :
    s.offsetAt second = s.standard ∨ s.offsetAt second = s.daylight := by
  rw [offsetAt]
  split
  · exact .inr rfl
  · exact .inl rfl

/-! ## Wall times -/

theorem offsetsOf_winter (h : s.Regular) (year : Int) (hfrom : s.ending (year - 1) < wall)
    (huntil : wall ≤ s.beginning year) :
    (Zone.seasonal s).offsetsOf wall = .once s.standard := by
  have hlast := h.spaced (year - 1)
  have hspaced := h.spaced year
  have hahead := h.ahead
  rw [Int.sub_add_cancel] at hlast
  by_cases hyear : wall < yearStart year
  · rw [Zone.offsetsOf, year_eq (year - 1) (by omega) (by rwa [Int.sub_add_cancel]),
      if_neg (by omega), if_neg (by omega), if_neg (by omega), if_neg (by omega)]
  · rw [Zone.offsetsOf, year_eq year (by omega) (by omega), if_pos huntil]

theorem offsetsOf_skipped (h : s.Regular) (year : Int) (hfrom : s.beginning year < wall)
    (huntil : wall < s.beginning year + (s.daylight - s.standard)) :
    (Zone.seasonal s).offsetsOf wall = .skipped := by
  have hspaced := h.spaced year
  have hahead := h.ahead
  rw [Zone.offsetsOf, year_eq year (by omega) (by omega), if_neg (by omega),
    if_pos huntil]

theorem offsetsOf_summer (h : s.Regular) (year : Int)
    (hfrom : s.beginning year + (s.daylight - s.standard) ≤ wall)
    (huntil : wall < s.ending year - (s.daylight - s.standard)) :
    (Zone.seasonal s).offsetsOf wall = .once s.daylight := by
  have hspaced := h.spaced year
  have hahead := h.ahead
  rw [Zone.offsetsOf, year_eq year (by omega) (by omega), if_neg (by omega),
    if_neg (by omega), if_pos huntil]

theorem offsetsOf_repeated (h : s.Regular) (year : Int)
    (hfrom : s.ending year - (s.daylight - s.standard) ≤ wall) (huntil : wall ≤ s.ending year) :
    (Zone.seasonal s).offsetsOf wall = .twice s.standard s.daylight := by
  have hspaced := h.spaced year
  have hahead := h.ahead
  rw [Zone.offsetsOf, year_eq year (by omega) (by omega), if_neg (by omega),
    if_neg (by omega), if_neg (by omega), if_pos huntil]

/-- Every wall time lies in a winter or a summer, or is skipped or repeated. -/
theorem Regular.exists_stretch_of_wall (h : s.Regular) (wall : Int) : ∃ year,
    (s.ending (year - 1) < wall ∧ wall ≤ s.beginning year) ∨
      (s.beginning year < wall ∧ wall < s.beginning year + (s.daylight - s.standard)) ∨
      (s.beginning year + (s.daylight - s.standard) ≤ wall ∧
        wall < s.ending year - (s.daylight - s.standard)) ∨
      (s.ending year - (s.daylight - s.standard) ≤ wall ∧ wall ≤ s.ending year) := by
  obtain ⟨year, hfrom, huntil⟩ := exists_year wall
  have hlast := h.spaced (year - 1)
  have hnext := h.spaced (year + 1)
  rw [Int.sub_add_cancel] at hlast
  by_cases hends : wall ≤ s.ending year
  · exact ⟨year, by omega⟩
  · refine ⟨year + 1, .inl ?_⟩
    rw [Int.add_sub_cancel]
    omega

/-! ## The clock goes on -/

/-- What comes later on the clock is read as a later second. -/
theorem lt_of_clock_lt (h : s.Regular) {offset : Int}
    (hfirst : ((Zone.seasonal s).offsetsOf wall).first? = some offset)
    (hlater : second + s.offsetAt second < wall) : second < wall - offset := by
  have hahead := h.ahead
  have hnow := s.offsetAt_eq_or second
  obtain ⟨year, ⟨hfrom, huntil⟩ | ⟨hfrom, huntil⟩ | ⟨hfrom, huntil⟩ | ⟨hfrom, huntil⟩⟩ :=
    h.exists_stretch_of_wall wall
  · rw [offsetsOf_winter h year hfrom huntil] at hfirst
    cases hfirst
    omega
  · rw [offsetsOf_skipped h year hfrom huntil] at hfirst
    cases hfirst
  · rw [offsetsOf_summer h year hfrom huntil] at hfirst
    cases hfirst
    -- In standard time the second would lie in the summer that it comes before.
    refine Int.not_le.1 fun hnot => ?_
    have hsummer : s.offsetAt second = s.daylight := by
      obtain hstandard | hdaylight := hnow
      · exact offsetAt_summer h year (by omega) (by omega)
      · exact hdaylight
    omega
  · rw [offsetsOf_repeated h year hfrom huntil] at hfirst
    cases hfirst
    omega

/-- Only the two offsets are read. -/
theorem eq_or_of_first? {offset : Int}
    (hfirst : ((Zone.seasonal s).offsetsOf wall).first? = some offset) :
    offset = s.standard ∨ offset = s.daylight := by
  rw [Zone.offsetsOf] at hfirst
  split at hfirst
  · exact .inl (Option.some.inj hfirst).symm
  split at hfirst
  · cases hfirst
  split at hfirst
  · exact .inr (Option.some.inj hfirst).symm
  split at hfirst
  · exact .inl (Option.some.inj hfirst).symm
  · exact .inl (Option.some.inj hfirst).symm

end Seasons

end Targeting.Calendar
