/-
# Moving into a delivery window

On a clock with a constant offset the move into a delivery window goes forward and
ends at an allowed time. It takes two steps, and each keeps what the one before has
reached: the first finds the window of the day, the second goes on by whole days,
which leaves the time of day alone, and meets an allowed weekday within a week.

Both steps may leave the calendar. They stay within it as long as it goes on for two
days after the time they end at: the window opens on the next date at the latest, and
a date on the clock is no more than a day ahead of the date in UTC.
-/

import Targeting.Notification.Window
import Targeting.Proofs.Calendar.Clock

namespace Targeting.DeliveryWindow

open Calendar (ClockTime Date Instant WallTime Zone)

/-- A window that opens on some day. -/
structure Opens (window : DeliveryWindow) : Prop where
  someDay : window.days ≠ []
  ordered : window.firstMinute ≤ window.lastMinute
  withinDay : window.lastMinute ≤ endOfDay

theorem allows_iff {window : DeliveryWindow} {wall : WallTime} :
    window.allows wall ↔ wall.date.weekday ∈ window.days ∧
      window.firstMinute ≤ wall.minuteOfDay ∧ wall.minuteOfDay ≤ window.lastMinute := by
  simp only [allows, Bool.and_eq_true, decide_eq_true_iff, List.contains_iff_mem, and_assoc]

/-- When a clock with a given offset shows a minute of a date. -/
def minuteOf (date : Date) (minute : Nat) (offset : Int) : Instant :=
  ⟨(date.dayNumber * Calendar.secondsPerDay + (60 * minute : Nat) - offset) * 1000000⟩

section

variable {zone : Zone} {offset : Int}

/-! ## The window of the day -/

theorem onClock?_ofDate (hzone : zone.HasOffset offset) (date : Date) (minute : Nat) :
    (WallTime.ofDate date (60 * minute) 0).onClock? offset =
      if (minuteOf date minute offset).inRange then some (zone.clock (minuteOf date minute offset))
      else none := by
  have hseconds : (minuteOf date minute offset).micros / 1000000 =
      (WallTime.ofDate date (60 * minute) 0).seconds - offset := by
    simp only [minuteOf, WallTime.ofDate]
    omega
  rw [WallTime.onClock?, WallTime.instantAt?, hzone.clock_eq, Instant.inRange, hseconds]
  split
  · simp [minuteOf, WallTime.ofDate]
  · rfl

theorem atMinute?_of_inRange (hzone : zone.HasOffset offset) {date : Date} {minute : Nat}
    (hrange : (minuteOf date minute offset).inRange) :
    atMinute? zone date minute = some (zone.clock (minuteOf date minute offset)) := by
  simp only [atMinute?, hzone.firstReading?_eq, onClock?_ofDate hzone, hrange, if_true]

/-- Also a minute that is read an hour later is not read earlier. -/
theorem exists_of_atMinute? (hzone : zone.HasOffset offset) {date : Date} {minute : Nat}
    {c : ClockTime} (h : atMinute? zone date minute = some c) :
    ∃ t, c = zone.clock t ∧ minuteOf date minute offset ≤ t := by
  have hlater : { WallTime.ofDate date (60 * minute) 0 with
      seconds := (WallTime.ofDate date (60 * minute) 0).seconds + 3600 } =
        WallTime.ofDate date (60 * (minute + 60)) 0 := by
    simp only [WallTime.ofDate, WallTime.mk.injEq, and_true]
    omega
  simp only [atMinute?, hzone.firstReading?_eq, hlater, onClock?_ofDate hzone] at h
  by_cases hrange : (minuteOf date minute offset).inRange
  · simp only [hrange, if_true, Option.some.injEq] at h
    exact ⟨_, h.symm, Instant.le_refl _⟩
  · by_cases hrange' : (minuteOf date (minute + 60) offset).inRange
    · simp only [hrange, hrange', if_true, Bool.false_eq_true, if_false, Option.some.injEq] at h
      refine ⟨_, h.symm, ?_⟩
      simp only [Instant.le_def, minuteOf]
      omega
    · simp [hrange, hrange'] at h

theorem minuteOfDay_minuteOf (hzone : zone.HasOffset offset) (date : Date) {minute : Nat}
    (hminute : minute ≤ endOfDay) :
    (zone.clock (minuteOf date minute offset)).wall.minuteOfDay = minute := by
  rw [endOfDay] at hminute
  simp only [hzone.clock_eq, ClockTime.wall, WallTime.minuteOfDay, WallTime.secondOfDay,
    Instant.seconds, minuteOf, Calendar.secondsPerDay]
  omega

/-- A time that goes on to an opening at most two days ahead, or stays where it is
beyond the calendar. -/
theorem exists_of_opening (hzone : zone.HasOffset offset) {window : DeliveryWindow}
    (hopens : window.Opens) {t : Instant} (ht : t.inRange) (date : Date)
    (hahead : t ≤ minuteOf date window.firstMinute offset)
    (hnear : minuteOf date window.firstMinute offset ≤ t.plusDays 2) :
    ∃ u, (atMinute? zone date window.firstMinute).getD (zone.clock t) = zone.clock u ∧
      t ≤ u ∧ ((u.plusDays 2).inRange →
        (zone.clock u).wall.minuteOfDay = window.firstMinute) := by
  cases hopening : atMinute? zone date window.firstMinute with
  | none =>
      refine ⟨t, rfl, Instant.le_refl t, fun hroom => ?_⟩
      have hrange := Instant.inRange_of_le_of_le ht hroom hahead hnear
      rw [atMinute?_of_inRange hzone hrange] at hopening
      exact absurd hopening (by simp)
  | some c =>
      obtain ⟨u, rfl, hu⟩ := exists_of_atMinute? hzone hopening
      refine ⟨u, rfl, Instant.le_trans hahead hu, fun hroom => ?_⟩
      have hrange := Instant.inRange_of_le_of_le ht hroom hahead
        (Instant.le_trans hu (Instant.le_plusDays u 2))
      rw [atMinute?_of_inRange hzone hrange] at hopening
      rw [← Option.some.inj hopening]
      exact minuteOfDay_minuteOf hzone date (Nat.le_trans hopens.ordered hopens.withinDay)

/-- The window of the day is found going forward, at its beginning or where the time
is in it already. -/
theorem exists_nextOpening (hzone : zone.HasOffset offset) {window : DeliveryWindow}
    (hopens : window.Opens) {t : Instant} (ht : t.inRange) :
    ∃ u, (window.nextOpening? zone (zone.clock t).wall).getD (zone.clock t) = zone.clock u ∧
      t ≤ u ∧ ((u.plusDays 2).inRange →
        window.firstMinute ≤ (zone.clock u).wall.minuteOfDay ∧
          (zone.clock u).wall.minuteOfDay ≤ window.lastMinute) := by
  have hordered := hopens.ordered
  have hwithin : window.firstMinute ≤ 1439 := Nat.le_trans hordered hopens.withinDay
  have hshort := hzone.short
  have hseconds : (zone.clock t).wall.seconds = t.micros / 1000000 + offset := by
    rw [hzone.clock_eq, ClockTime.wall, Instant.seconds]
  have hminute : (zone.clock t).wall.minuteOfDay =
      ((t.micros / 1000000 + offset) % 86400).toNat / 60 := by
    rw [WallTime.minuteOfDay, WallTime.secondOfDay, hseconds, Calendar.secondsPerDay]
  have hdate : (zone.clock t).wall.date.dayNumber = (t.micros / 1000000 + offset) / 86400 := by
    rw [WallTime.date, hseconds, Calendar.secondsPerDay]
  unfold nextOpening?
  split
  case isTrue hbefore =>
      obtain ⟨u, hu, hle, hopening⟩ :=
        exists_of_opening hzone hopens ht (zone.clock t).wall.date
          (by simp only [Instant.le_def, minuteOf, hdate, Calendar.secondsPerDay]; omega)
          (by simp only [Instant.le_def, minuteOf, Instant.plusDays, hdate,
            Calendar.secondsPerDay]; omega)
      exact ⟨u, hu, hle, fun hroom => by rw [hopening hroom]; exact ⟨Nat.le_refl _, hordered⟩⟩
  case isFalse hbefore =>
  split
  case isFalse hafter =>
      exact ⟨t, rfl, Instant.le_refl t, fun _ => ⟨by omega, by omega⟩⟩
  case isTrue hafter =>
  by_cases htomorrow : ((zone.clock t).wall.date.addDays 1).inRange
  · obtain ⟨u, hu, hle, hopening⟩ :=
      exists_of_opening hzone hopens ht ((zone.clock t).wall.date.addDays 1)
        (by simp only [Instant.le_def, minuteOf, Date.addDays, hdate, Calendar.secondsPerDay]
            omega)
        (by simp only [Instant.le_def, minuteOf, Instant.plusDays, Date.addDays, hdate,
              Calendar.secondsPerDay]
            omega)
    refine ⟨u, by simpa [htomorrow] using hu, hle, fun hroom => ?_⟩
    rw [hopening hroom]
    exact ⟨Nat.le_refl _, hordered⟩
  · refine ⟨t, by simp [htomorrow], Instant.le_refl t, fun hroom => ?_⟩
    refine absurd ?_ htomorrow
    rw [Instant.inRange, Date.inRange_iff] at ht hroom
    rw [Date.inRange_iff]
    simp only [Instant.plusDays, Date.addDays, hdate, Calendar.secondsPerDay] at ht hroom ⊢
    omega

/-! ## The day of the week -/

/-- A day later the clock shows the same time of day, whether the day is counted on
the clock or in seconds. -/
theorem nextDay?_clock (hzone : zone.HasOffset offset) (t : Instant) :
    nextDay? zone (zone.clock t) =
      if (t.plusDays 1).inRange then some (zone.clock (t.plusDays 1)) else none := by
  have hsecond : (zone.clock t).wall.seconds + Calendar.secondsPerDay - offset =
      (t.plusDays 1).micros / 1000000 := by
    simp only [Instant.plusDays, Calendar.secondsPerDay, hzone.clock_eq, ClockTime.wall,
      Instant.seconds]
    omega
  have hmicros : (t.plusDays 1).micros / 1000000 * 1000000 +
      ((zone.clock t).wall.nanos / 1000 : Nat) = (t.plusDays 1).micros := by
    simp only [Instant.plusDays, Calendar.secondsPerDay, hzone.clock_eq, ClockTime.wall]
    omega
  have hreading : zone.onlyReading? { (zone.clock t).wall with
      seconds := (zone.clock t).wall.seconds + Calendar.secondsPerDay } =
        if (t.plusDays 1).inRange then some (zone.clock (t.plusDays 1)) else none := by
    rw [hzone.onlyReading?_eq, WallTime.onClock?, WallTime.instantAt?]
    simp only [hsecond, hmicros]
    rw [← Instant.inRange, hzone.clock_eq (t.plusDays 1)]
    split <;> rfl
  have hadd : (zone.clock t).instant.addSeconds? Calendar.secondsPerDay =
      if (t.plusDays 1).inRange then some (t.plusDays 1) else none := by
    have hday : t.plusDays 1 = ⟨t.micros + Calendar.secondsPerDay * 1000000⟩ := by
      simp [Instant.plusDays]
    rw [hday]
    rfl
  rw [nextDay?, hreading, hadd]
  by_cases hrange : (t.plusDays 1).inRange <;> simp [hrange]

/-- Going on by whole days ends on an allowed day, if there is one within the days. -/
theorem exists_toAllowedDay (hzone : zone.HasOffset offset) (window : DeliveryWindow)
    (steps : Nat) {start t : Instant} (hstart : start.inRange) (ht : start ≤ t) :
    ∃ days, toAllowedDay window zone steps (zone.clock t) = zone.clock (t.plusDays days) ∧
      (((t.plusDays days).plusDays 2).inRange →
        (∃ ahead ≤ steps, ((zone.clock t).wall.date.addDays ahead).weekday ∈ window.days) →
        (zone.clock (t.plusDays days)).wall.date.weekday ∈ window.days) := by
  induction steps generalizing t with
  | zero =>
      refine ⟨0, by rw [toAllowedDay, t.plusDays_zero], ?_⟩
      rintro - ⟨ahead, hahead, hday⟩
      obtain rfl := Nat.le_zero.1 hahead
      rwa [hzone.date_plusDays]
  | succ steps ih =>
      by_cases hallowed : (zone.clock t).wall.date.weekday ∈ window.days
      · refine ⟨0, ?_, fun _ _ => by rwa [t.plusDays_zero]⟩
        rw [toAllowedDay, if_pos (List.contains_iff_mem.2 hallowed), t.plusDays_zero]
      · rw [toAllowedDay, if_neg (by simpa using hallowed), nextDay?_clock hzone]
        by_cases hnext : (t.plusDays 1).inRange
        · obtain ⟨days, hdays, hreached⟩ := ih (Instant.le_trans ht (t.le_plusDays 1))
          refine ⟨1 + days, by simpa [hnext, t.plusDays_plusDays] using hdays, ?_⟩
          rw [← t.plusDays_plusDays 1 days]
          rintro hroom ⟨ahead, hahead, hday⟩
          refine hreached hroom ⟨ahead - 1, by omega, ?_⟩
          -- The first day is not an allowed one, so an allowed one lies ahead of the next day.
          have hne : ahead ≠ 0 := by
            rintro rfl
            exact hallowed (by simpa [Date.addDays] using hday)
          have hsame : ((zone.clock t).wall.date.addDays (1 : Nat)).addDays (ahead - 1 : Nat) =
              (zone.clock t).wall.date.addDays ahead := by
            simp only [Date.addDays, Date.mk.injEq]
            omega
          rwa [hzone.date_plusDays, hsame]
        · refine ⟨0, by simp [hnext, t.plusDays_zero], fun hroom _ => absurd ?_ hnext⟩
          rw [t.plusDays_zero] at hroom
          have hle : t.plusDays 1 ≤ t.plusDays 2 := by
            simp only [Instant.le_def, Instant.plusDays, Calendar.secondsPerDay]
            omega
          exact Instant.inRange_of_le_of_le hstart hroom
            (Instant.le_trans ht (t.le_plusDays 1)) hle

/-! ## Both together -/

/-- An allowed time stays as it is. -/
theorem shift_of_allowsAt {window : DeliveryWindow} {t : Instant} (h : window.allowsAt zone t) :
    window.shift zone t = zone.clock t := if_pos h

/-- The move into a window goes forward and ends at an allowed time. -/
theorem shift_spec (hzone : zone.HasOffset offset) {window : DeliveryWindow}
    (hopens : window.Opens) {t : Instant} (ht : t.inRange) :
    t ≤ (window.shift zone t).instant ∧
      (((window.shift zone t).instant.plusDays 2).inRange →
        window.allowsAt zone (window.shift zone t).instant) := by
  by_cases hallowed : window.allowsAt zone t
  · rw [shift_of_allowsAt hallowed]
    exact ⟨Instant.le_refl t, fun _ => hallowed⟩
  · have hshift : window.shift zone t = window.toAllowedDay zone 7
        ((window.nextOpening? zone (zone.clock t).wall).getD (zone.clock t)) := if_neg hallowed
    rw [hshift]
    obtain ⟨u, hu, hle, hminute⟩ := exists_nextOpening hzone hopens ht
    obtain ⟨days, hdays, hday⟩ := exists_toAllowedDay hzone window 7 ht hle
    simp only [hu, hdays]
    have hlater : u ≤ u.plusDays days := u.le_plusDays days
    refine ⟨Instant.le_trans hle hlater, fun hroom => ?_⟩
    obtain ⟨d, hd⟩ := List.exists_mem_of_ne_nil _ hopens.someDay
    obtain ⟨ahead, hahead, hweekday⟩ := (zone.clock u).wall.date.exists_weekday d
    have hallowed := hday hroom ⟨ahead, by omega, hweekday ▸ hd⟩
    have hroom' : (u.plusDays 2).inRange := by
      refine Instant.inRange_of_le_of_le ht hroom (Instant.le_trans hle (u.le_plusDays 2)) ?_
      show u.plusDays 2 ≤ (u.plusDays days).plusDays 2
      rw [u.plusDays_plusDays, Nat.add_comm, ← u.plusDays_plusDays]
      exact Instant.le_plusDays _ days
    obtain ⟨hfirst, hlast⟩ := hminute hroom'
    show window.allows (zone.clock (u.plusDays days)).wall
    rw [allows_iff, hzone.minuteOfDay_plusDays]
    exact ⟨hallowed, hfirst, hlast⟩

end

end Targeting.DeliveryWindow
