/-
# Delivery is never moved back

The move into a delivery window goes forward, on every clock. Reaching the window it looks
for a time of day that comes later on the clock, and what comes later on the clock is read
as a later instant, also in hours that occur twice or not at all. Then it goes on by whole
days on the clock, of which none is shorter than a day less the hours by which the clock
may be changed.
-/

import Targeting.Proofs.Calendar.Seasons
import Targeting.Proofs.Notification.Checked

namespace Targeting.DeliveryWindow

open Calendar (ClockTime Date Instant Seasons WallTime Zone)

section

variable {s : Seasons} {window : DeliveryWindow} {t : Instant} {c c' : ClockTime}

/-- A time on a seasonal clock, in standard time or in daylight time. -/
def HasSeason (s : Seasons) (c : ClockTime) : Prop := c.offset = s.standard ∨ c.offset = s.daylight

theorem hasSeason_clock (s : Seasons) (t : Instant) : HasSeason s ((Zone.seasonal s).clock t) :=
  s.offsetAt_eq_or t.seconds

/-- What comes later on the clock than what it shows now is read as a later instant. -/
theorem le_of_firstReading? (hs : s.Regular) {wall : WallTime}
    (h : (Zone.seasonal s).firstReading? wall = some c)
    (hlater : ((Zone.seasonal s).clock t).wall.seconds < wall.seconds) :
    t ≤ c.instant ∧ HasSeason s c := by
  obtain ⟨offset, hfirst, hreading⟩ := Calendar.Zone.exists_of_firstReading? h
  obtain rfl := WallTime.onClock?_eq_some hreading
  refine ⟨?_, Seasons.eq_or_of_first? hfirst⟩
  have hlt : t.seconds < wall.seconds - offset := Seasons.lt_of_clock_lt hs hfirst hlater
  simp only [Instant.seconds] at hlt
  simp only [Instant.le_def]
  omega

theorem le_of_atMinute? (hs : s.Regular) {date : Date} {minute : Nat}
    (h : atMinute? (.seasonal s) date minute = some c)
    (hlater : ((Zone.seasonal s).clock t).wall.seconds <
      date.dayNumber * Calendar.secondsPerDay + (60 * minute : Nat)) :
    t ≤ c.instant ∧ HasSeason s c := by
  rw [atMinute?] at h
  split at h
  case h_1 reading hreading =>
      cases h
      exact le_of_firstReading? hs hreading hlater
  case h_2 =>
      refine le_of_firstReading? hs h (Int.lt_trans hlater ?_)
      simp only [WallTime.ofDate]
      omega

/-- The window opens later. -/
theorem le_of_nextOpening? (hs : s.Regular)
    (h : window.nextOpening? (.seasonal s) ((Zone.seasonal s).clock t).wall = some c) :
    t ≤ c.instant ∧ HasSeason s c := by
  rw [nextOpening?] at h
  split at h
  case isTrue hbefore =>
      refine le_of_atMinute? hs h ?_
      simp only [WallTime.minuteOfDay, WallTime.secondOfDay, WallTime.date,
        Calendar.secondsPerDay] at hbefore ⊢
      omega
  case isFalse =>
  split at h
  case isTrue hafter =>
      dsimp only at h
      split at h
      case isTrue =>
          refine le_of_atMinute? hs h ?_
          simp only [WallTime.date, Date.addDays, Calendar.secondsPerDay]
          omega
      case isFalse => cases h
  case isFalse => cases h

/-- The way to the window begins at its next opening, or now if it does not open later. -/
theorem le_opening (hs : s.Regular) (window : DeliveryWindow) (t : Instant) :
    let c := (window.nextOpening? (.seasonal s) ((Zone.seasonal s).clock t).wall).getD
      ((Zone.seasonal s).clock t)
    t ≤ c.instant ∧ HasSeason s c := by
  cases hopening : window.nextOpening? (.seasonal s) ((Zone.seasonal s).clock t).wall with
  | none => exact ⟨Instant.le_refl t, hasSeason_clock s t⟩
  | some c => exact le_of_nextOpening? hs hopening

/-- The same time on the next day is later. -/
theorem le_of_nextDay? (hs : s.Regular) (hc : HasSeason s c)
    (h : nextDay? (.seasonal s) c = some c') : c.instant ≤ c'.instant ∧ HasSeason s c' := by
  have hahead := hs.ahead
  rw [nextDay?] at h
  split at h
  case h_1 next hreading =>
      cases h
      obtain ⟨offset, honce, hreading⟩ := Calendar.Zone.exists_of_onlyReading? hreading
      obtain rfl := WallTime.onClock?_eq_some hreading
      have hoffset : offset = s.standard ∨ offset = s.daylight :=
        Seasons.eq_or_of_first? (by rw [honce]; rfl)
      refine ⟨?_, hoffset⟩
      simp only [HasSeason] at hc
      simp only [Instant.le_def, ClockTime.wall, Instant.seconds, Calendar.secondsPerDay]
      omega
  case h_2 =>
      obtain ⟨later, hlater, rfl⟩ := Option.map_eq_some_iff.1 h
      obtain ⟨hmicros, -⟩ := Instant.micros_of_addSeconds? hlater
      refine ⟨?_, hasSeason_clock s later⟩
      simp only [Instant.le_def, Zone.clock, hmicros, Calendar.secondsPerDay]
      omega

theorem le_toAllowedDay (hs : s.Regular) (window : DeliveryWindow) (days : Nat)
    (hc : HasSeason s c) : c.instant ≤ (window.toAllowedDay (.seasonal s) days c).instant := by
  induction days generalizing c with
  | zero => exact Instant.le_refl _
  | succ days ih =>
      rw [toAllowedDay]
      split
      · exact Instant.le_refl _
      · split
        case h_1 next hnext =>
            obtain ⟨hle, hseason⟩ := le_of_nextDay? hs hc hnext
            exact Instant.le_trans hle (ih hseason)
        case h_2 => exact Instant.le_refl _

/-- The move into a window goes forward on a clock that is changed. -/
theorem le_shift_seasonal (hs : s.Regular) (window : DeliveryWindow) (t : Instant) :
    t ≤ (window.shift (.seasonal s) t).instant := by
  rw [shift]
  split
  · exact Instant.le_refl t
  · obtain ⟨hle, hseason⟩ := le_opening hs window t
    exact Instant.le_trans hle (le_toAllowedDay hs window 7 hseason)

end

end Targeting.DeliveryWindow

namespace Targeting

open Calendar (Instant Zone)

end Targeting
