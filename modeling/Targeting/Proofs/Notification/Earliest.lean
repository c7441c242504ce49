/-
# The earliest time that is allowed

On a clock with a constant offset the move into a delivery window finds the earliest
time that suits. A time within the minutes of the window keeps its time of day; any other
is delivered at the first minute. So the times that suit are a whole number of days apart,
the first of them is less than a day away, and it takes less than a week from there until
the day is allowed.

The earliest time exists whether the calendar reaches it or not. The move goes there
whenever its date, in UTC and on the clock, is one of the calendar.
-/

import Mathlib.Data.Nat.Find
import Mathlib.Order.Bounds.Defs
import Targeting.Proofs.Notification.Checked

namespace Targeting.DeliveryWindow

open Calendar (ClockTime Date Instant WallTime Zone)

/-- The second and the nanosecond of the day at which a wall time is delivered: its own within the
minutes of the window, and those of the first minute otherwise. -/
def timeOfDay (window : DeliveryWindow) (wall : WallTime) : Nat × Nat :=
  if window.firstMinute ≤ wall.minuteOfDay ∧ wall.minuteOfDay ≤ window.lastMinute then
    (wall.secondOfDay, wall.nanos)
  else (60 * window.firstMinute, 0)

/-- An instant on an allowed day, at the time of day at which another instant is delivered. -/
def Suits (window : DeliveryWindow) (zone : Zone) (t u : Instant) : Prop :=
  (zone.clock u).wall.date.weekday ∈ window.days ∧
    ((zone.clock u).wall.secondOfDay, (zone.clock u).wall.nanos) =
      window.timeOfDay (zone.clock t).wall

section

variable {zone : Zone} {offset : Int} {window : DeliveryWindow} {t u v : Instant}

/-! ## The time of day -/

/-- Instants with the same time of day on the clock are whole days apart. -/
theorem eq_plusDays_of_sameTime (hzone : zone.HasOffset offset)
    (hsecond : (zone.clock v).wall.secondOfDay = (zone.clock u).wall.secondOfDay)
    (hnanos : (zone.clock v).wall.nanos = (zone.clock u).wall.nanos)
    (hlater : u.micros - 86400 * 1000000 < v.micros) : ∃ days, v = u.plusDays days := by
  simp only [hzone.clock_eq, ClockTime.wall, WallTime.secondOfDay, Instant.seconds,
    Calendar.secondsPerDay] at hsecond hnanos
  refine ⟨((v.micros - u.micros) / (86400 * 1000000)).toNat, congrArg Instant.mk ?_⟩
  simp only [Calendar.secondsPerDay]
  omega

theorem secondOfDay_plusDays (hzone : zone.HasOffset offset) (u : Instant) (days : Nat) :
    (zone.clock (u.plusDays days)).wall.secondOfDay = (zone.clock u).wall.secondOfDay := by
  simp only [hzone.clock_eq, ClockTime.wall, WallTime.secondOfDay, Instant.seconds,
    Instant.plusDays, Calendar.secondsPerDay]
  omega

theorem nanos_plusDays (hzone : zone.HasOffset offset) (u : Instant) (days : Nat) :
    (zone.clock (u.plusDays days)).wall.nanos = (zone.clock u).wall.nanos := by
  simp only [hzone.clock_eq, ClockTime.wall, Instant.plusDays, Calendar.secondsPerDay]
  omega

theorem time_minuteOf (hzone : zone.HasOffset offset) (date : Date) {minute : Nat}
    (hminute : minute ≤ endOfDay) :
    (zone.clock (minuteOf date minute offset)).wall.date = date ∧
      ((zone.clock (minuteOf date minute offset)).wall.secondOfDay,
        (zone.clock (minuteOf date minute offset)).wall.nanos) = (60 * minute, 0) := by
  rw [endOfDay] at hminute
  obtain ⟨day⟩ := date
  simp only [hzone.clock_eq, ClockTime.wall, WallTime.date, WallTime.secondOfDay, Instant.seconds,
    minuteOf, Calendar.secondsPerDay, Date.mk.injEq, Prod.mk.injEq]
  omega

/-- The first time of day that suits is less than a day away. -/
structure IsOpening (window : DeliveryWindow) (zone : Zone) (t u : Instant) : Prop where
  le : t ≤ u
  near : u.micros < t.micros + 86400 * 1000000
  time : ((zone.clock u).wall.secondOfDay, (zone.clock u).wall.nanos) =
    window.timeOfDay (zone.clock t).wall
  found : u.inRange →
    (zone.clock u).wall.date.dayNumber < (Date.newYear (Date.maxYear + 1)).dayNumber →
      (window.nextOpening? zone (zone.clock t).wall).getD (zone.clock t) = zone.clock u

theorem exists_isOpening (hzone : zone.HasOffset offset) (hopens : window.Opens)
    (ht : t.inRange) : ∃ u, window.IsOpening zone t u := by
  have hordered := hopens.ordered
  have hfirst : window.firstMinute ≤ endOfDay := Nat.le_trans hordered hopens.withinDay
  have hwithin : window.firstMinute ≤ 1439 := hfirst
  have hseconds : (zone.clock t).wall.seconds = t.micros / 1000000 + offset := by
    rw [hzone.clock_eq, ClockTime.wall, Instant.seconds]
  have hminute : (zone.clock t).wall.minuteOfDay =
      ((t.micros / 1000000 + offset) % 86400).toNat / 60 := by
    rw [WallTime.minuteOfDay, WallTime.secondOfDay, hseconds, Calendar.secondsPerDay]
  have hdate : (zone.clock t).wall.date.dayNumber = (t.micros / 1000000 + offset) / 86400 := by
    rw [WallTime.date, hseconds, Calendar.secondsPerDay]
  by_cases hbefore : (zone.clock t).wall.minuteOfDay < window.firstMinute
  · obtain ⟨-, htime⟩ := time_minuteOf hzone (zone.clock t).wall.date hfirst
    refine ⟨minuteOf (zone.clock t).wall.date window.firstMinute offset, ?_, ?_, ?_, ?_⟩
    · simp only [Instant.le_def, minuteOf, hdate, Calendar.secondsPerDay]
      omega
    · simp only [minuteOf, hdate, Calendar.secondsPerDay]
      omega
    · rw [htime, timeOfDay, if_neg (by omega)]
    · intro hrange _
      rw [nextOpening?, if_pos hbefore, atMinute?_of_inRange hzone hrange]
      rfl
  by_cases hafter : window.lastMinute < (zone.clock t).wall.minuteOfDay
  · obtain ⟨htomorrow, htime⟩ := time_minuteOf hzone ((zone.clock t).wall.date.addDays 1) hfirst
    refine ⟨minuteOf ((zone.clock t).wall.date.addDays 1) window.firstMinute offset, ?_, ?_, ?_, ?_⟩
    · simp only [Instant.le_def, minuteOf, Date.addDays, hdate, Calendar.secondsPerDay]
      omega
    · simp only [minuteOf, Date.addDays, hdate, Calendar.secondsPerDay]
      omega
    · rw [htime, timeOfDay, if_neg (by omega)]
    · intro hrange hlast
      have hshort := hzone.short
      have hinRange : ((zone.clock t).wall.date.addDays 1).inRange := by
        rw [Instant.inRange, Date.inRange_iff] at ht
        rw [htomorrow] at hlast
        rw [Date.inRange_iff]
        simp only [Date.addDays, hdate, Calendar.secondsPerDay] at ht hlast ⊢
        omega
      rw [nextOpening?, if_neg hbefore, if_pos hafter, if_pos hinRange,
        atMinute?_of_inRange hzone hrange]
      rfl
  · refine ⟨t, Instant.le_refl t, by omega, ?_, fun _ _ => ?_⟩
    · rw [timeOfDay, if_pos (by omega)]
    · rw [nextOpening?, if_neg hbefore, if_neg hafter]
      rfl

/-! ## The day -/

/-- Going on by whole days ends on the first allowed day. -/
theorem toAllowedDay_of_first (hzone : zone.HasOffset offset) {days steps : Nat}
    (hsteps : days ≤ steps) (hstart : u.inRange) (hend : (u.plusDays days).inRange)
    (hday : (zone.clock (u.plusDays days)).wall.date.weekday ∈ window.days)
    (hfirst : ∀ d < days, (zone.clock (u.plusDays d)).wall.date.weekday ∉ window.days) :
    window.toAllowedDay zone steps (zone.clock u) = zone.clock (u.plusDays days) := by
  induction days generalizing u steps with
  | zero =>
      rw [u.plusDays_zero] at hday ⊢
      cases steps with
      | zero => rfl
      | succ steps => rw [toAllowedDay, if_pos (List.contains_iff_mem.2 hday)]
  | succ days ih =>
      obtain ⟨steps, rfl⟩ := Nat.exists_eq_add_of_le' (Nat.lt_of_lt_of_le days.succ_pos hsteps)
      have hnot : (zone.clock u).wall.date.weekday ∉ window.days := by
        simpa [u.plusDays_zero] using hfirst 0 days.succ_pos
      have hnext (d : Nat) : (u.plusDays 1).plusDays d = u.plusDays (d + 1) := by
        rw [u.plusDays_plusDays, Nat.add_comm]
      have hrange : (u.plusDays 1).inRange := by
        refine Instant.inRange_of_le_of_le hstart hend (u.le_plusDays 1) ?_
        have hle := (u.plusDays 1).le_plusDays days
        rw [hnext] at hle
        exact hle
      rw [← hnext days] at hend hday ⊢
      rw [toAllowedDay, if_neg (by simpa using hnot), nextDay?_clock hzone, if_pos hrange]
      refine ih (Nat.le_of_succ_le_succ hsteps) hrange hend hday fun d hd => ?_
      rw [hnext]
      exact hfirst (d + 1) (Nat.succ_lt_succ hd)

/-- Within a week there is a first allowed day. -/
theorem exists_first_day (hzone : zone.HasOffset offset) (hopens : window.Opens) (u : Instant) :
    ∃ days < 7, (zone.clock (u.plusDays days)).wall.date.weekday ∈ window.days ∧
      ∀ d < days, (zone.clock (u.plusDays d)).wall.date.weekday ∉ window.days := by
  obtain ⟨day, hday⟩ := List.exists_mem_of_ne_nil _ hopens.someDay
  obtain ⟨ahead, hahead, hweekday⟩ := (zone.clock u).wall.date.exists_weekday day
  have hexists : ∃ days, (zone.clock (u.plusDays days)).wall.date.weekday ∈ window.days :=
    ⟨ahead, by rwa [hzone.date_plusDays, hweekday]⟩
  have hle : Nat.find hexists ≤ ahead := Nat.find_le (by rwa [hzone.date_plusDays, hweekday])
  exact ⟨Nat.find hexists, Nat.lt_of_le_of_lt hle hahead, Nat.find_spec hexists,
    fun d hd => Nat.find_min hexists hd⟩

/-- The first opening, on the first allowed day, is the earliest time that suits. -/
theorem IsOpening.isLeast_plusDays (h : window.IsOpening zone t u) (hzone : zone.HasOffset offset)
    {days : Nat} (hday : (zone.clock (u.plusDays days)).wall.date.weekday ∈ window.days)
    (hfirst : ∀ d < days, (zone.clock (u.plusDays d)).wall.date.weekday ∉ window.days) :
    IsLeast {v | t ≤ v ∧ window.Suits zone t v} (u.plusDays days) := by
  refine ⟨⟨Instant.le_trans h.le (u.le_plusDays days), hday, ?_⟩, ?_⟩
  · rw [secondOfDay_plusDays hzone, nanos_plusDays hzone, h.time]
  · rintro v ⟨hle, hallowed, htime⟩
    rw [← h.time, Prod.mk.injEq] at htime
    have hlater : u.micros - 86400 * 1000000 < v.micros := by
      have hnear := h.near
      have hv := Instant.le_def.1 hle
      omega
    obtain ⟨d, rfl⟩ := eq_plusDays_of_sameTime hzone htime.1 htime.2 hlater
    have hd : days ≤ d := Nat.le_of_not_lt fun hlt => hfirst d hlt hallowed
    simp only [Instant.le_def, Instant.plusDays, Calendar.secondsPerDay]
    omega

/-- A time that suits is allowed. -/
theorem Suits.allowsAt (h : window.Suits zone t u) (hopens : window.Opens) :
    window.allowsAt zone u := by
  obtain ⟨hday, htime⟩ := h
  have hordered := hopens.ordered
  have hminutes : window.firstMinute ≤ (zone.clock u).wall.minuteOfDay ∧
      (zone.clock u).wall.minuteOfDay ≤ window.lastMinute := by
    rw [timeOfDay] at htime
    split at htime
    case isTrue hwithin =>
        rwa [WallTime.minuteOfDay, (Prod.mk.inj htime).1]
    case isFalse =>
        rw [WallTime.minuteOfDay, (Prod.mk.inj htime).1]
        omega
  exact allows_iff.2 ⟨hday, hminutes⟩

theorem suits_of_allowsAt (h : window.allowsAt zone t) : window.Suits zone t t := by
  obtain ⟨hday, hminutes⟩ := allows_iff.1 h
  exact ⟨hday, by rw [timeOfDay, if_pos hminutes]⟩

/-- The move goes to the first opening, and on to the first allowed day, as far as the calendar
reaches. -/
theorem shift_eq_of_isOpening (hzone : zone.HasOffset offset) (ht : t.inRange)
    (hopening : window.IsOpening zone t u) (hnot : ¬ window.allowsAt zone t) {days : Nat}
    (hdays : days < 7) (hday : (zone.clock (u.plusDays days)).wall.date.weekday ∈ window.days)
    (hfirst : ∀ d < days, (zone.clock (u.plusDays d)).wall.date.weekday ∉ window.days)
    (hend : (u.plusDays days).inRange)
    (hdate : (zone.clock (u.plusDays days)).wall.date.inRange) :
    window.shift zone t = zone.clock (u.plusDays days) := by
  have hstart : u.inRange :=
    Instant.inRange_of_le_of_le ht hend hopening.le (u.le_plusDays days)
  have hlast : (zone.clock u).wall.date.dayNumber <
      (Date.newYear (Date.maxYear + 1)).dayNumber := by
    simp only [hzone.date_plusDays, Date.inRange_iff, Date.addDays] at hdate
    omega
  have hshift : window.shift zone t = window.toAllowedDay zone 7
      ((window.nextOpening? zone (zone.clock t).wall).getD (zone.clock t)) := if_neg hnot
  rw [hshift, hopening.found hstart hlast]
  exact toAllowedDay_of_first hzone (Nat.le_of_lt hdays) hstart hend hday hfirst

end

end Targeting.DeliveryWindow

namespace Targeting.Notification

open Calendar (Instant Zone)

/-- The move into the window of a notification finds the earliest time on an allowed day with the
right time of day: the own one, if it is within the minutes of the window, and otherwise that of
the first minute. This time is allowed, it is less than eight days away, and it is the time itself
if that is allowed. -/
theorem shift_isEarliest {n : Notification} (hchecked : n.IsChecked) {zone : Zone}
    (hzone : zone.IsConstant) {t : Instant} (ht : t.inRange) :
    ∃ u, IsLeast {v | t ≤ v ∧ n.window.Suits zone t v} u ∧ n.window.allowsAt zone u ∧
      u < t.plusDays 8 ∧ (n.window.allowsAt zone t → u = t) ∧
      (u.inRange → (zone.clock u).wall.date.inRange → n.window.shift zone t = zone.clock u) := by
  have hopens := hchecked.sound.opens
  obtain ⟨offset, hoffset⟩ := hzone.exists_offset
  obtain ⟨start, hopening⟩ := DeliveryWindow.exists_isOpening hoffset hopens ht
  obtain ⟨days, hdays, hday, hfirst⟩ := DeliveryWindow.exists_first_day hoffset hopens start
  have hleast := hopening.isLeast_plusDays hoffset hday hfirst
  have hsame (hallowed : n.window.allowsAt zone t) : start.plusDays days = t :=
    Instant.le_antisymm
      (hleast.2 ⟨Instant.le_refl t, DeliveryWindow.suits_of_allowsAt hallowed⟩) hleast.1.1
  refine ⟨start.plusDays days, hleast, hleast.1.2.allowsAt hopens, ?_, hsame,
    fun hend hdate => ?_⟩
  · have hnear := hopening.near
    show start.micros + days * (Calendar.secondsPerDay * 1000000) <
      t.micros + (8 : Nat) * (Calendar.secondsPerDay * 1000000)
    simp only [Calendar.secondsPerDay]
    omega
  · by_cases hallowed : n.window.allowsAt zone t
    · rw [DeliveryWindow.shift_of_allowsAt hallowed, hsame hallowed]
    · exact DeliveryWindow.shift_eq_of_isOpening hoffset ht hopening hallowed hdays hday hfirst
        hend hdate

/-- A reminder for Monday mornings that is due at the very end of a Tuesday, an hour ahead of UTC,
is delivered at nine o'clock on the next Monday, which is in the next year. -/
theorem monday_of_next_year :
    let draft : NotificationDraft :=
      { title := some "Reminder", body := none, badgeCount := none, tapAction := none
        sound := none, launchImage := none, relevance := none, interruption := none
        scheduleCondition := none, due := ⟨some 1703631599, none, none, none⟩
        days := some "Monday", dayStart := some "09:00", dayEnd := some "17:00", ideal := none
        cancelationEvents := none }
    let window : DeliveryWindow := ⟨[.monday], 540, 1020⟩
    let t : Instant := ⟨1703631599999999⟩
    (∃ n, ofDraft ⟨.strict, []⟩ "reminder" draft = .ok n ∧ n.window = window) ∧
      window.shift (.fixed 3600) t = ⟨⟨1704096000000000⟩, 3600⟩ ∧
      IsLeast {v | t ≤ v ∧ window.Suits (.fixed 3600) t v} ⟨1704096000000000⟩ := by
  intro draft window t
  have hwindow : ∃ n, ofDraft ⟨.strict, []⟩ "reminder" draft = .ok n ∧ n.window = window :=
    ⟨_, rfl, rfl⟩
  have hshift : window.shift (.fixed 3600) t = ⟨⟨1704096000000000⟩, 3600⟩ := by decide +kernel
  have hzone : Zone.IsConstant (.fixed 3600) := ⟨by decide, by decide⟩
  have ht : t.inRange := by decide
  have hlast : (t.plusDays 8).inRange := by decide
  obtain ⟨n, hn, hnwindow⟩ := hwindow
  obtain ⟨u, hleast, -, hnear, -, hfound⟩ :=
    shift_isEarliest ⟨_, _, _, hn⟩ hzone ht
  rw [hnwindow] at hleast hfound
  have hle : t ≤ u := hleast.1.1
  have hrange : u.inRange :=
    Instant.inRange_of_le_of_le ht hlast hle (Int.le_of_lt hnear)
  have hdate : (Zone.clock (.fixed 3600) u).wall.date.inRange := by
    have hmin : (Calendar.Date.newYear Calendar.Date.minYear).dayNumber = -96465292 := by decide
    have hmax : (Calendar.Date.newYear (Calendar.Date.maxYear + 1)).dayNumber = 95026237 := by
      decide
    have hfrom : 1703631599999999 ≤ u.micros := hle
    have huntil : u.micros < 1703631599999999 + 8 * (86400 * 1000000) := hnear
    rw [Calendar.Date.inRange_iff, hmin, hmax]
    show _ ≤ (u.micros / 1000000 + 3600) / 86400 ∧ (u.micros / 1000000 + 3600) / 86400 < _
    omega
  have hu : u = ⟨1704096000000000⟩ :=
    congrArg Calendar.ClockTime.instant ((hfound hrange hdate).symm.trans hshift)
  exact ⟨⟨n, hn, hnwindow⟩, hshift, hu ▸ hleast⟩

end Targeting.Notification
