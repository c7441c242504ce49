/-
# Looking for a good moment again

The next look for a good moment comes a quarter of an hour from now. If the delivery
window is closed then, the look waits until the window opens, and for a margin of two
minutes more. Where the window opens delivery is allowed, but the margin is added
without asking again, so the look may come when the window is closed once more: after
the last minute of a short window, or after midnight on a day that is not allowed or
has not reached its first minute.
-/

import Targeting.Notification.Plan
import Targeting.Proofs.Notification.Checked

namespace Targeting.DeliveryWindow

open Calendar (Date Instant WallTime Zone)

/-- Some minutes after a time at which delivery is allowed it is allowed too: on the same day, or
after midnight on the next. -/
def StaysOpen (window : DeliveryWindow) (wall : WallTime) (minutes : Nat) : Prop :=
  let minute := wall.minuteOfDay + minutes
  if minute ≤ endOfDay then minute ≤ window.lastMinute
  else (wall.date.addDays 1).weekday ∈ window.days ∧ window.firstMinute + endOfDay < minute

instance (window : DeliveryWindow) (wall : WallTime) (minutes : Nat) :
    Decidable (window.StaysOpen wall minutes) := by
  unfold StaysOpen
  infer_instance

/-- When a look that is due soon takes place: then, or if the window opens later some time after it
opens. -/
def look? (window : DeliveryWindow) (zone : Zone) (soon : Instant) : Option Instant :=
  let opening := (window.shift zone soon).instant
  if soon < opening then opening.addSeconds? Notification.openingMargin else some soon

theorem look?_of_allowsAt {window : DeliveryWindow} {zone : Zone} {soon : Instant}
    (h : window.allowsAt zone soon) : window.look? zone soon = some soon := by
  rw [look?, shift_of_allowsAt h]
  exact if_neg (Int.lt_irrefl soon.micros)

/-- No look takes place before the window opens. -/
theorem shift_le_of_look? {window : DeliveryWindow} {zone : Zone} {soon c : Instant}
    (h : window.look? zone soon = some c) : (window.shift zone soon).instant ≤ c := by
  simp only [look?] at h
  split at h
  case isTrue =>
      obtain ⟨hmicros, -⟩ := Instant.micros_of_addSeconds? h
      rw [Instant.le_def, hmicros, Notification.openingMargin]
      omega
  case isFalse hopen =>
      cases h
      exact Instant.not_lt.1 hopen

section

variable {zone : Zone} {offset : Int} {window : DeliveryWindow} {t later : Instant} {minutes : Nat}

theorem minuteOfDay_le (wall : WallTime) : wall.minuteOfDay ≤ endOfDay := by
  simp only [WallTime.minuteOfDay, WallTime.secondOfDay, Calendar.secondsPerDay, endOfDay]
  omega

/-- What a clock with a constant offset shows some minutes later. -/
theorem wall_of_minutesLater (hzone : zone.HasOffset offset)
    (hlater : later.micros = t.micros + (60 * minutes : Nat) * 1000000) :
    (zone.clock later).wall.minuteOfDay = ((zone.clock t).wall.minuteOfDay + minutes) % 1440 ∧
      (zone.clock later).wall.date =
        (zone.clock t).wall.date.addDays (((zone.clock t).wall.minuteOfDay + minutes) / 1440 : Nat) := by
  have hseconds : (zone.clock later).wall.seconds =
      (zone.clock t).wall.seconds + (60 * minutes : Nat) := by
    simp only [hzone.clock_eq, Calendar.ClockTime.wall, Instant.seconds, hlater]
    omega
  generalize (zone.clock later).wall = after at hseconds
  generalize (zone.clock t).wall = before at hseconds
  simp only [WallTime.minuteOfDay, WallTime.secondOfDay, WallTime.date, Date.addDays,
    Date.mk.injEq, hseconds, Calendar.secondsPerDay]
  omega

/-- Up to a day after a time at which delivery is allowed. -/
theorem allowsAt_of_minutesLater (hzone : zone.HasOffset offset) (hallowed : window.allowsAt zone t)
    (hday : minutes ≤ 1440) (hlater : later.micros = t.micros + (60 * minutes : Nat) * 1000000) :
    window.allowsAt zone later ↔ window.StaysOpen (zone.clock t).wall minutes := by
  obtain ⟨hweekday, hfirst, hlast⟩ := allows_iff.1 hallowed
  obtain ⟨hminute, hdate⟩ := wall_of_minutesLater hzone hlater
  have hend : (zone.clock t).wall.minuteOfDay ≤ 1439 := minuteOfDay_le _
  rw [DeliveryWindow.allowsAt, allows_iff, hminute, hdate, StaysOpen]
  generalize (zone.clock t).wall = wall at *
  by_cases hsame : wall.minuteOfDay + minutes ≤ endOfDay
  · have hlt : wall.minuteOfDay + minutes < 1440 := Nat.lt_succ_of_le hsame
    have hstay : wall.date.addDays (0 : Nat) = wall.date := by simp [Date.addDays]
    simp only [if_pos hsame, Nat.mod_eq_of_lt hlt, Nat.div_eq_of_lt hlt, hstay]
    constructor
    · intro h
      exact h.2.2
    · intro h
      exact ⟨hweekday, Nat.le_trans hfirst (Nat.le_add_right _ _), h⟩
  · have hmidnight : 1440 ≤ wall.minuteOfDay + minutes := Nat.lt_of_not_le hsame
    have hnext : (wall.minuteOfDay + minutes) / 1440 = 1 := by omega
    have hpast : (wall.minuteOfDay + minutes) % 1440 = wall.minuteOfDay + minutes - 1440 := by
      omega
    rw [if_neg hsame, hnext, hpast]
    simp only [endOfDay, Int.natCast_one]
    constructor
    · rintro ⟨hnextDay, hopen, -⟩
      exact ⟨hnextDay, by omega⟩
    · rintro ⟨hnextDay, hopen⟩
      exact ⟨hnextDay, by omega, by omega⟩

end

end Targeting.DeliveryWindow

namespace Targeting.Notification

open Calendar (Instant Zone)

/-- The next look comes a quarter of an hour from now or, if the window opens later, some time
after it opens, and not after the delivery. -/
theorem checkTime?_eq_some_iff {n : Notification} {now c : Instant} {zone : Zone}
    {delivery : Option Instant} :
    n.checkTime? now zone delivery = some c ↔
      ∃ soon, now.addSeconds? checkDelay = some soon ∧ n.window.look? zone soon = some c ∧
        ∀ time ∈ delivery, c ≤ time := by
  have hcheck : n.checkTime? now zone delivery = (now.addSeconds? checkDelay).bind fun soon =>
      (n.window.look? zone soon).bind fun check =>
        if ∃ time ∈ delivery, time < check then none else some check := by
    rw [checkTime?]
    refine congrArg (Option.bind _) (funext fun soon => ?_)
    rw [DeliveryWindow.look?]
    cases delivery <;> by_cases hlater : soon < (n.window.shift zone soon).instant <;>
      simp [hlater]
  simp only [hcheck, Option.bind_eq_some_iff, Option.ite_none_left_eq_some, Option.some.injEq,
    not_exists, not_and, Instant.not_lt]
  refine exists_congr fun soon => and_congr_right fun _ => ?_
  constructor
  · rintro ⟨check, hlook, hdelivery, rfl⟩
    exact ⟨hlook, hdelivery⟩
  · rintro ⟨hlook, hdelivery⟩
    exact ⟨c, hlook, hdelivery, rfl⟩

/-- The next look is at least a quarter of an hour from now and not after the delivery. If
delivery is allowed in a quarter of an hour, the look takes place then. Otherwise it takes place
two minutes after the window opens, when delivery is allowed exactly if the window stays open for
these minutes. -/
theorem allowsAt_nextLook_iff {n : Notification} (hchecked : n.IsChecked) {zone : Zone}
    (hzone : zone.IsConstant) {now c : Instant} {delivery : Option Instant}
    (h : n.checkTime? now zone delivery = some c) :
    ∃ soon, now.addSeconds? checkDelay = some soon ∧ soon ≤ c ∧ (∀ time ∈ delivery, c ≤ time) ∧
      (n.window.allowsAt zone soon → c = soon) ∧
      (¬ n.window.allowsAt zone soon → (c.plusDays 2).inRange →
        ∃ opening, opening = (n.window.shift zone soon).instant ∧ soon < opening ∧
          n.window.allowsAt zone opening ∧ opening.addSeconds? openingMargin = some c ∧
          (n.window.allowsAt zone c ↔ n.window.StaysOpen (zone.clock opening).wall 2)) := by
  have hopens := hchecked.sound.opens
  obtain ⟨offset, hoffset⟩ := hzone.exists_offset
  obtain ⟨soon, hsoon, hlook, hdelivery⟩ := checkTime?_eq_some_iff.1 h
  have hrange := (Instant.micros_of_addSeconds? hsoon).2
  obtain ⟨hforward, hreached⟩ := DeliveryWindow.shift_spec hoffset hopens hrange
  have hopening := DeliveryWindow.shift_le_of_look? hlook
  refine ⟨soon, hsoon, Instant.le_trans hforward hopening, hdelivery, fun hallowed => ?_,
    fun hclosed hroom => ⟨_, rfl, ?_⟩⟩
  · rw [DeliveryWindow.look?_of_allowsAt hallowed] at hlook
    exact (Option.some.inj hlook).symm
  have hstart : (n.window.shift zone soon).instant.inRange :=
    Instant.inRange_of_le_of_le hrange hroom hforward
      (Instant.le_trans hopening (c.le_plusDays 2))
  have hnear : (n.window.shift zone soon).instant.plusDays 2 ≤ c.plusDays 2 := by
    rw [Instant.le_def] at hopening
    simp only [Instant.le_def, Instant.plusDays]
    omega
  have hallowed := hreached (Instant.inRange_of_le_of_le hstart hroom
    (Instant.le_plusDays _ 2) hnear)
  have hlater : soon < (n.window.shift zone soon).instant := by
    rw [← Instant.not_le]
    intro hle
    rw [← Instant.le_antisymm hforward hle] at hallowed
    exact hclosed hallowed
  have hmargin : (n.window.shift zone soon).instant.addSeconds? openingMargin = some c := by
    rwa [DeliveryWindow.look?, if_pos hlater] at hlook
  exact ⟨hlater, hallowed, hmargin, DeliveryWindow.allowsAt_of_minutesLater hoffset hallowed
    (by decide) (Instant.micros_of_addSeconds? hmargin).1⟩

/-- At eight o'clock the next look for a reminder that is delivered from nine o'clock to one minute
past nine is put off to two minutes past nine. -/
theorem short_window_is_missed :
    let draft : NotificationDraft :=
      { title := some "Reminder", body := none, badgeCount := none, tapAction := none
        sound := none, launchImage := none, relevance := none, interruption := none
        scheduleCondition := none, due := ⟨none, some "signup", some 0, none⟩, days := none
        dayStart := some "09:00", dayEnd := some "09:01", ideal := none
        cancelationEvents := none }
    let n : Notification :=
      { id := "reminder", title := some "Reminder", body := none, badgeCount := none
        tapAction := none, sound := none, launchImage := none, relevance := none
        interruption := none, scheduleCondition := none
        due := .afterEvent "signup" 0 .latestOnce
        window := ⟨Calendar.Weekday.all, 540, 541⟩, ideal := none, cancelationEvents := [] }
    ofDraft ⟨.strict, []⟩ "reminder" draft = .ok n ∧
      n.checkTime? ⟨1700035200000000⟩ .utc none = some ⟨1700038920000000⟩ ∧
      n.window.allowsAt .utc ⟨1700038800000000⟩ ∧
      ¬ n.window.allowsAt .utc ⟨1700038920000000⟩ := by
  intro draft n
  have hn : ofDraft ⟨.strict, []⟩ "reminder" draft = .ok n := rfl
  have hcheck : n.checkTime? ⟨1700035200000000⟩ .utc none = some ⟨1700038920000000⟩ := by
    decide +kernel
  obtain ⟨soon, hsoon, -, -, -, hlater⟩ :=
    allowsAt_nextLook_iff ⟨_, _, _, hn⟩ (show Zone.IsConstant .utc from trivial) hcheck
  obtain rfl : ⟨1700036100000000⟩ = soon := Option.some.inj hsoon
  obtain ⟨opening, hopening, -, hallowed, -, hiff⟩ := hlater (by decide) (by decide)
  obtain rfl : opening = ⟨1700038800000000⟩ := hopening.trans (by decide +kernel)
  exact ⟨hn, hcheck, hallowed, fun hc => absurd (hiff.1 hc) (by decide)⟩

end Targeting.Notification
