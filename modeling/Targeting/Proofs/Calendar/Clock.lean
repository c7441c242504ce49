/-
# Clocks that are never changed

On a clock with a constant offset instants and wall times move together: a day later
the clock shows the same time of day on the next date. Within a week every weekday
comes up.
-/

import Mathlib.Order.Basic
import Targeting.Calendar.Zone

namespace Targeting.Calendar

theorem Date.inRange_iff {date : Date} :
    date.inRange ↔ (newYear minYear).dayNumber ≤ date.dayNumber ∧
      date.dayNumber < (newYear (maxYear + 1)).dayNumber := by
  rw [inRange, Bool.and_eq_true, decide_eq_true_iff, decide_eq_true_iff]

namespace Instant

theorem le_def {a b : Instant} : a ≤ b ↔ a.micros ≤ b.micros := Iff.rfl

theorem le_refl (a : Instant) : a ≤ a := Int.le_refl a.micros

theorem le_trans {a b c : Instant} (hab : a ≤ b) (hbc : b ≤ c) : a ≤ c :=
  Int.le_trans hab hbc

theorem le_antisymm {a b : Instant} (hab : a ≤ b) (hba : b ≤ a) : a = b :=
  congrArg mk (Int.le_antisymm hab hba)

theorem not_le {a b : Instant} : ¬ a ≤ b ↔ b < a := Int.not_le

theorem not_lt {a b : Instant} : ¬ a < b ↔ b ≤ a := Int.not_lt

/-- A number of days later. -/
def plusDays (t : Instant) (days : Nat) : Instant :=
  ⟨t.micros + days * (secondsPerDay * 1000000)⟩

theorem plusDays_zero (t : Instant) : t.plusDays 0 = t := by simp [plusDays]

theorem plusDays_plusDays (t : Instant) (m n : Nat) :
    (t.plusDays m).plusDays n = t.plusDays (m + n) := by
  simp only [plusDays, secondsPerDay, mk.injEq]
  omega

theorem le_plusDays (t : Instant) (days : Nat) : t ≤ t.plusDays days := by
  simp only [le_def, plusDays, secondsPerDay]
  omega

/-- The calendar has no gaps. -/
theorem inRange_of_le_of_le {first t last : Instant} (hfirst : first.inRange)
    (hlast : last.inRange) (h : first ≤ t) (h' : t ≤ last) : t.inRange := by
  rw [inRange, Date.inRange_iff] at *
  simp only [secondsPerDay] at *
  rw [le_def] at h h'
  omega

theorem inRange_of_ofMicros? {micros : Int} {t : Instant} (h : ofMicros? micros = some t) :
    t.micros = micros ∧ t.inRange := by
  unfold ofMicros? at h
  split at h
  case isTrue hrange =>
      obtain rfl := Option.some.inj h
      exact ⟨rfl, hrange⟩
  case isFalse => exact absurd h (by simp)

theorem micros_of_addSeconds? {t later : Instant} {seconds : Int}
    (h : t.addSeconds? seconds = some later) :
    later.micros = t.micros + seconds * 1000000 ∧ later.inRange :=
  inRange_of_ofMicros? h

end Instant

/-! ## Weeks -/

theorem Weekday.ofSunday_fromSunday (d : Weekday) : ofSunday d.fromSunday = d := by
  cases d <;> rfl

/-- Every weekday comes up within a week. -/
theorem Date.exists_weekday (date : Date) (d : Weekday) :
    ∃ days : Nat, days < 7 ∧ (date.addDays days).weekday = d := by
  have hlt : d.fromSunday < 7 := by cases d <;> decide
  refine ⟨((d.fromSunday - (date.dayNumber + 4)) % 7).toNat, by omega, ?_⟩
  have hday : ((date.dayNumber + ((d.fromSunday - (date.dayNumber + 4)) % 7).toNat + 4) % 7).toNat
      = d.fromSunday := by
    omega
  rw [weekday, addDays, hday, Weekday.ofSunday_fromSunday]

/-! ## Constant offsets -/

namespace Zone

/-- The zones whose clock is never changed: UTC, and offsets of less than a day. -/
def IsConstant : Zone → Prop
  | utc => True
  | fixed offset => -86400 < offset ∧ offset < 86400
  | seasonal _ => False

/-- A zone whose clock always has the same offset. -/
structure HasOffset (zone : Zone) (offset : Int) : Prop where
  offsetAt : ∀ seconds, zone.offsetAt seconds = offset
  offsetsOf : ∀ seconds, zone.offsetsOf seconds = .once offset
  short : -86400 < offset ∧ offset < 86400

theorem IsConstant.exists_offset {zone : Zone} (h : zone.IsConstant) :
    ∃ offset, zone.HasOffset offset := by
  cases zone with
  | utc => exact ⟨0, fun _ => rfl, fun _ => rfl, by decide⟩
  | fixed offset => exact ⟨offset, fun _ => rfl, fun _ => rfl, h⟩
  | seasonal => exact absurd h id

namespace HasOffset

variable {zone : Zone} {offset : Int}

theorem clock_eq (h : zone.HasOffset offset) (t : Instant) : zone.clock t = ⟨t, offset⟩ := by
  rw [clock, h.offsetAt]

theorem firstReading?_eq (h : zone.HasOffset offset) (wall : WallTime) :
    zone.firstReading? wall = wall.onClock? offset := by
  rw [firstReading?, h.offsetsOf]

theorem onlyReading?_eq (h : zone.HasOffset offset) (wall : WallTime) :
    zone.onlyReading? wall = wall.onClock? offset := by
  rw [onlyReading?, h.offsetsOf]

theorem date_plusDays (h : zone.HasOffset offset) (t : Instant) (days : Nat) :
    (zone.clock (t.plusDays days)).wall.date = (zone.clock t).wall.date.addDays days := by
  simp only [h.clock_eq, ClockTime.wall, WallTime.date, Instant.seconds, Instant.plusDays,
    secondsPerDay, Date.addDays, Date.mk.injEq]
  omega

theorem minuteOfDay_plusDays (h : zone.HasOffset offset) (t : Instant) (days : Nat) :
    (zone.clock (t.plusDays days)).wall.minuteOfDay = (zone.clock t).wall.minuteOfDay := by
  simp only [h.clock_eq, ClockTime.wall, WallTime.minuteOfDay, WallTime.secondOfDay,
    Instant.seconds, Instant.plusDays, secondsPerDay]
  omega

end HasOffset

end Zone

end Targeting.Calendar
