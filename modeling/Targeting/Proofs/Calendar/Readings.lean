/-
# Readings of a clock that is changed by an hour

A clock time is read faithfully when its offset is the one in force at its instant. One
reading is not: the moment at which the clock goes forward still counts as the end of
standard time. From a faithful reading the offsets of the wall time can be told, so a day
on the clock can be followed: on the next day the clock shows the same time, unless it
skips that time and shows the hour after it, or goes back at exactly that time and shows
the hour before.
-/

import Targeting.Proofs.Calendar.Seasons

namespace Targeting.Calendar

/-- The fraction of a wall time is a number of microseconds of less than a second. -/
def WallTime.IsWhole (w : WallTime) : Prop := w.nanos < 1000000000 ∧ w.nanos % 1000 = 0

theorem WallTime.seconds_eq (w : WallTime) :
    w.seconds = w.date.dayNumber * 86400 + w.secondOfDay ∧ w.secondOfDay < 86400 := by
  simp only [date, secondOfDay, secondsPerDay]
  omega

theorem ClockTime.isWhole_wall (c : ClockTime) : c.wall.IsWhole := by
  simp only [WallTime.IsWhole, wall]
  omega

/-- A wall time is what the clock shows when it is read. -/
theorem WallTime.wall_of_onClock? {w : WallTime} (hw : w.IsWhole) {offset : Int} {c : ClockTime}
    (h : w.onClock? offset = some c) :
    c.wall = w ∧ c.offset = offset ∧ c.instant.seconds = w.seconds - offset := by
  obtain rfl := onClock?_eq_some h
  obtain ⟨seconds, nanos⟩ := w
  simp only [IsWhole] at hw
  simp only [ClockTime.wall, Instant.seconds, WallTime.mk.injEq, true_and]
  omega

/-- The instants of the calendar are those from its first year to its last. -/
theorem Instant.inRange_iff_seconds {t : Instant} : t.inRange ↔
    Seasons.yearStart Date.minYear ≤ t.seconds ∧
      t.seconds < Seasons.yearStart (Date.maxYear + 1) := by
  rw [inRange, Date.inRange_iff]
  simp only [Seasons.yearStart, Instant.seconds, secondsPerDay]
  omega

theorem Instant.seconds_plusDays (t : Instant) (days : Nat) :
    (t.plusDays days).seconds = t.seconds + days * 86400 := by
  simp only [seconds, plusDays, secondsPerDay]
  omega

/-- Room after a later instant is room after an earlier one. -/
theorem Instant.inRange_plusDays_of_le {t later : Instant} {days : Nat} (ht : t.inRange)
    (hle : t ≤ later) (hroom : (later.plusDays days).inRange) : (t.plusDays days).inRange := by
  refine inRange_of_le_of_le ht hroom (t.le_plusDays days) ?_
  simp only [le_def, plusDays] at hle ⊢
  omega

/-- What a clock shows within the calendar can be read. -/
theorem WallTime.exists_onClock? (w : WallTime) (offset : Int)
    (hfrom : Seasons.yearStart Date.minYear ≤ w.seconds - offset)
    (huntil : w.seconds - offset < Seasons.yearStart (Date.maxYear + 1)) :
    ∃ c, w.onClock? offset = some c := by
  have hrange : (Date.mk ((w.seconds - offset) / secondsPerDay)).inRange := by
    rw [Date.inRange_iff]
    simp only [Seasons.yearStart, secondsPerDay] at hfrom huntil ⊢
    omega
  exact ⟨_, by rw [onClock?, instantAt?, if_pos hrange]; rfl⟩

namespace Seasons

/-- The clock goes forward and back by an hour, and not around midnight. -/
structure Usual (s : Seasons) : Prop extends s.Regular where
  hour : s.daylight = s.standard + 3600
  beginsWithinDay : s.beginsAt + 7200 ≤ 86400
  endsWithinDay : 3600 ≤ s.endsAt ∧ s.endsAt < 86400

theorem eastern_usual : eastern.Usual where
  toRegular := eastern_regular
  hour := by decide
  beginsWithinDay := by decide
  endsWithinDay := by decide

/-- The clock never shows a wall time. -/
def Skips (s : Seasons) (wall : Int) : Prop := (Zone.seasonal s).offsetsOf wall = .skipped

/-- The clock goes back when it shows a wall time. -/
def TurnsBackAt (s : Seasons) (wall : Int) : Prop := ∃ year, wall = s.ending year

/-- A reading with the offset in force, or of the moment at which the clock goes forward. -/
def Reads (s : Seasons) (c : ClockTime) : Prop :=
  c.offset = s.offsetAt c.instant.seconds ∨
    c.offset = s.standard ∧ ∃ year, c.wall.seconds = s.beginning year

variable {s : Seasons} {c c' : ClockTime} {year wall offset : Int}

theorem reads_clock (s : Seasons) (t : Instant) : s.Reads ((Zone.seasonal s).clock t) := .inl rfl

theorem Reads.eq_clock_or (hc : s.Reads c) :
    c = (Zone.seasonal s).clock c.instant ∨ ∃ year, c.wall.seconds = s.beginning year := by
  obtain ⟨instant, offset⟩ := c
  obtain hoffset | ⟨-, hyear⟩ := hc
  · exact .inl (congrArg (ClockTime.mk instant) hoffset)
  · exact .inr hyear

theorem Regular.exists_of_skips (h : s.Regular) (hskips : s.Skips wall) : ∃ year,
    s.beginning year < wall ∧ wall < s.beginning year + (s.daylight - s.standard) := by
  rw [Skips] at hskips
  obtain ⟨year, ⟨hfrom, huntil⟩ | hwithin | ⟨hfrom, huntil⟩ | ⟨hfrom, huntil⟩⟩ :=
    h.exists_stretch_of_wall wall
  · rw [offsetsOf_winter h _ hfrom huntil] at hskips
    cases hskips
  · exact ⟨year, hwithin⟩
  · rw [offsetsOf_summer h _ hfrom huntil] at hskips
    cases hskips
  · rw [offsetsOf_repeated h _ hfrom huntil] at hskips
    cases hskips

theorem Regular.offsetsOf_of_turnsBackAt (h : s.Regular) (hturns : s.TurnsBackAt wall) :
    (Zone.seasonal s).offsetsOf wall = .twice s.standard s.daylight := by
  have hahead := h.ahead
  obtain ⟨year, rfl⟩ := hturns
  exact offsetsOf_repeated h _ (by omega) (Int.le_refl _)

/-- A wall time with one reading is shown, and the clock does not go back then. -/
theorem Regular.of_once (h : s.Regular) (honce : (Zone.seasonal s).offsetsOf wall = .once offset) :
    ¬ s.Skips wall ∧ ¬ s.TurnsBackAt wall := by
  refine ⟨fun hskips => ?_, fun hturns => ?_⟩
  · exact absurd (honce.symm.trans hskips) (by simp)
  · exact absurd (honce.symm.trans (h.offsetsOf_of_turnsBackAt hturns)) (by simp)

/-- The clock goes back once in a year. -/
theorem Regular.not_turnsBackAt (h : s.Regular)
    (hfrom : s.ending year - (s.daylight - s.standard) ≤ wall) (huntil : wall < s.ending year) :
    ¬ s.TurnsBackAt wall := by
  rintro ⟨other, rfl⟩
  have hahead := h.ahead
  have hspaced := h.spaced year
  have hother := h.spaced other
  have hyear : (Date.mk (s.ending other / secondsPerDay)).year = other :=
    year_eq other (by omega) (by omega)
  rw [year_eq year (by omega) (by omega)] at hyear
  rw [hyear] at huntil
  exact Int.lt_irrefl _ huntil

/-- The offset of a first reading is the one in force, except when the clock goes forward. -/
theorem reads_of_first? (h : s.Regular)
    (hfirst : ((Zone.seasonal s).offsetsOf wall).first? = some offset) :
    offset = s.offsetAt (wall - offset) ∨
      offset = s.standard ∧ ∃ year, wall = s.beginning year := by
  have hahead := h.ahead
  obtain ⟨year, ⟨hfrom, huntil⟩ | ⟨hfrom, huntil⟩ | ⟨hfrom, huntil⟩ | ⟨hfrom, huntil⟩⟩ :=
    h.exists_stretch_of_wall wall
  · rw [offsetsOf_winter h _ hfrom huntil] at hfirst
    cases hfirst
    by_cases hmoment : wall = s.beginning year
    · exact .inr ⟨rfl, year, hmoment⟩
    · exact .inl (offsetAt_winter h year (by omega) (by omega)).symm
  · rw [offsetsOf_skipped h _ hfrom huntil] at hfirst
    cases hfirst
  · rw [offsetsOf_summer h _ hfrom huntil] at hfirst
    cases hfirst
    exact .inl (offsetAt_summer h year (by omega) (by omega)).symm
  · rw [offsetsOf_repeated h _ hfrom huntil] at hfirst
    cases hfirst
    have hspaced := h.spaced year
    have hnext := h.spaced (year + 1)
    refine .inl (offsetAt_winter h (year + 1) ?_ (by omega)).symm
    rw [Int.add_sub_cancel]
    omega

/-- The two readings of a repeated time do not lie on both sides of the turn of a year. -/
theorem Regular.yearStart_le_second (h : s.Regular) {first second later : Int}
    (htwice : (Zone.seasonal s).offsetsOf wall = .twice first second)
    (hyear : yearStart year ≤ later) (hlater : later < wall - first) :
    (second = s.standard ∨ second = s.daylight) ∧ yearStart year ≤ wall - second := by
  have hahead := h.ahead
  have hshort := h.short
  obtain ⟨change, ⟨hfrom, huntil⟩ | ⟨hfrom, huntil⟩ | ⟨hfrom, huntil⟩ | ⟨hfrom, huntil⟩⟩ :=
    h.exists_stretch_of_wall wall
  · rw [offsetsOf_winter h _ hfrom huntil] at htwice
    cases htwice
  · rw [offsetsOf_skipped h _ hfrom huntil] at htwice
    cases htwice
  · rw [offsetsOf_summer h _ hfrom huntil] at htwice
    cases htwice
  · rw [offsetsOf_repeated h _ hfrom huntil] at htwice
    cases htwice
    have hspaced := h.spaced change
    refine ⟨.inr rfl, ?_⟩
    by_cases hle : year ≤ change
    · have hstart := yearStart_le hle
      omega
    · have hnext := yearStart_le (show change + 1 ≤ year by omega)
      omega

theorem reads_of_onClock? (h : s.Regular) {w : WallTime} (hw : w.IsWhole)
    (hfirst : ((Zone.seasonal s).offsetsOf w.seconds).first? = some offset)
    (hreading : w.onClock? offset = some c) : s.Reads c := by
  obtain ⟨hwall, hoffset, hseconds⟩ := WallTime.wall_of_onClock? hw hreading
  rw [Reads, hwall, hoffset, hseconds]
  exact reads_of_first? h hfirst

/-- A wall time that is read is not skipped. -/
theorem Reads.offsetsOf_eq (hc : s.Reads c) (h : s.Regular) :
    (Zone.seasonal s).offsetsOf c.wall.seconds = .once c.offset ∨
      (Zone.seasonal s).offsetsOf c.wall.seconds = .twice s.standard s.daylight := by
  have hahead := h.ahead
  have hwall : c.wall.seconds = c.instant.seconds + c.offset := rfl
  obtain hoffset | ⟨hoffset, year, hmoment⟩ := hc
  · obtain ⟨year, ⟨hfrom, huntil⟩ | ⟨hfrom, huntil⟩⟩ := h.exists_stretch c.instant.seconds
    · rw [offsetAt_winter h _ hfrom huntil] at hoffset
      by_cases hrepeated : c.wall.seconds ≤ s.ending (year - 1)
      · exact .inr (offsetsOf_repeated h _ (by omega) hrepeated)
      · exact .inl (hoffset ▸ offsetsOf_winter h year (by omega) (by omega))
    · rw [offsetAt_summer h _ hfrom huntil] at hoffset
      by_cases hrepeated : s.ending year - (s.daylight - s.standard) ≤ c.wall.seconds
      · exact .inr (offsetsOf_repeated h year hrepeated (by omega))
      · exact .inl (hoffset ▸ offsetsOf_summer h year (by omega) (by omega))
  · have hlast := h.spaced (year - 1)
    have hspaced := h.spaced year
    rw [Int.sub_add_cancel] at hlast
    rw [hmoment, hoffset]
    exact .inl (offsetsOf_winter h _ (by omega) (Int.le_refl _))

theorem Reads.eq_standard_or (hc : s.Reads c) : c.offset = s.standard ∨ c.offset = s.daylight := by
  obtain hoffset | ⟨hoffset, -⟩ := hc
  · rw [hoffset]
    exact s.offsetAt_eq_or _
  · exact .inl hoffset

theorem Reads.not_skips (hc : s.Reads c) (h : s.Regular) : ¬ s.Skips c.wall.seconds := by
  rw [Skips]
  obtain honce | htwice := hc.offsetsOf_eq h
  · simp [honce]
  · simp [htwice]

/-- In a wall time with one offset that one is read. -/
theorem Reads.offset_eq (hc : s.Reads c) (h : s.Regular)
    (honce : (Zone.seasonal s).offsetsOf c.wall.seconds = .once offset) : c.offset = offset := by
  obtain hread | htwice := hc.offsetsOf_eq h
  · rw [honce] at hread
    exact (Offsets.once.inj hread).symm
  · rw [honce] at htwice
    cases htwice

end Seasons

end Targeting.Calendar
