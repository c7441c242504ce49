/-
# Delivery windows and changes of the clock

A time that is moved into a window aims at a time of day: its own, or the beginning of the
window. On a clock that is changed by an hour the days on the way are followed one by one,
each from the one before, and the aim may be missed. If the clock skips the time of day on
one of them, an hour is added that day, and if the clock goes back at exactly that time, an
hour is lost. On the days after that nothing brings the hour back, although the clock would
show the time that was aimed at. The clock is not changed twice within the week that the
way takes at most, so this happens once or not at all.

The day on which the way ends is always an allowed one. Within the minutes of the window is
what was aimed at; an hour off it may lie outside.
-/

import Targeting.Proofs.Calendar.Readings
import Targeting.Proofs.Notification.Forward

namespace Targeting.DeliveryWindow

open Calendar (ClockTime Date Instant Seasons WallTime Zone)

/-- The wall time that a move into the window aims at, as far as the time of day is concerned. -/
def aim (window : DeliveryWindow) (wall : WallTime) : WallTime :=
  if wall.minuteOfDay < window.firstMinute then .ofDate wall.date (60 * window.firstMinute) 0
  else if window.lastMinute < wall.minuteOfDay then
    .ofDate (wall.date.addDays 1) (60 * window.firstMinute) 0
  else wall

/-- What the clock shows a day later when a wall time comes next: this time, or the one an hour
after it if the clock skips it, or the one an hour before it if the clock goes back just then. -/
inductive Lands (s : Seasons) (target wall : Int) : Prop
  | shown (hshown : ¬ s.Skips target) (hturns : ¬ s.TurnsBackAt target) (h : wall = target)
  | skipped (hskips : s.Skips target) (h : wall = target + 3600)
  | turnedBack (hturns : s.TurnsBackAt target) (h : wall = target - 3600)

/-- By how many seconds an aim is missed after some days on the clock: by an hour if the clock skips
it on one of the days or, later than on the first, goes back just then. -/
inductive Misses (s : Seasons) (aim : Int) (days : Nat) : Int → Prop
  | never (h : ∀ passed : Nat, passed ≤ days → ¬ s.Skips (aim + passed * 86400) ∧
      (0 < passed → ¬ s.TurnsBackAt (aim + passed * 86400))) : Misses s aim days 0
  | skipped (passed : Nat) (hpassed : passed ≤ days) (h : s.Skips (aim + passed * 86400)) :
      Misses s aim days 3600
  | turnedBack (passed : Nat) (hlater : 0 < passed) (hpassed : passed ≤ days)
      (h : s.TurnsBackAt (aim + passed * 86400)) : Misses s aim days (-3600)

/-- The first of the allowed days from a date on, some days later. -/
def IsFirstDay (window : DeliveryWindow) (date : Date) (days : Nat) : Prop :=
  (date.addDays days).weekday ∈ window.days ∧
    ∀ d < days, (date.addDays (d : Nat)).weekday ∉ window.days

section

variable {s : Seasons} {window : DeliveryWindow} {t : Instant} {c c' : ClockTime}

/-! ## From day to day -/

/-- A wall time with one reading is read, unless it lies outside of the calendar. -/
theorem offsetsOf_ne_once (hs : s.Usual) (hc : s.Reads c) (hrange : c.instant.inRange)
    (hroom : (c.instant.plusDays 2).inRange)
    (hnone : (Zone.seasonal s).onlyReading?
      { c.wall with seconds := c.wall.seconds + Calendar.secondsPerDay } = none) (offset : Int) :
    (Zone.seasonal s).offsetsOf (c.wall.seconds + 86400) ≠ .once offset := by
  intro honce
  have hhour := hs.hour
  have hoffset := hc.eq_standard_or
  have hnear : offset = s.standard ∨ offset = s.daylight :=
    Seasons.eq_or_of_first? (by rw [honce]; rfl)
  have hwall : c.wall.seconds = c.instant.seconds + c.offset := rfl
  rw [Instant.inRange_iff_seconds] at hrange hroom
  rw [Instant.seconds_plusDays] at hroom
  obtain ⟨reading, hreading⟩ := WallTime.exists_onClock?
    { c.wall with seconds := c.wall.seconds + 86400 } offset (by dsimp only; omega)
    (by dsimp only; omega)
  rw [Zone.onlyReading?, Calendar.secondsPerDay] at hnone
  dsimp only at hnone
  rw [honce] at hnone
  exact absurd (hreading.symm.trans hnone) (by simp)

/-- What the clock shows after twenty-four hours. -/
theorem wall_clock_of_addSeconds? {later : Instant}
    (h : c.instant.addSeconds? Calendar.secondsPerDay = some later) :
    ((Zone.seasonal s).clock later).wall = ⟨c.wall.seconds + 86400 - c.offset +
      s.offsetAt (c.wall.seconds + 86400 - c.offset), c.wall.nanos⟩ := by
  obtain ⟨hmicros, -⟩ := Instant.micros_of_addSeconds? h
  rw [Calendar.secondsPerDay] at hmicros
  have hseconds : later.seconds = c.wall.seconds + 86400 - c.offset := by
    simp only [Instant.seconds, ClockTime.wall, hmicros]
    omega
  have hnanos : ((Zone.seasonal s).clock later).wall.nanos = c.wall.nanos := by
    simp only [Zone.clock, ClockTime.wall, hmicros]
    omega
  rw [← hseconds, ← hnanos]
  rfl

/-- Twenty-four hours later, where the same time has no single reading. -/
theorem lands_of_offsetsOf_ne_once (hs : s.Usual) (hc : s.Reads c)
    (hmany : ∀ offset, (Zone.seasonal s).offsetsOf (c.wall.seconds + 86400) ≠ .once offset) :
    Lands s (c.wall.seconds + 86400) (c.wall.seconds + 86400 - c.offset +
      s.offsetAt (c.wall.seconds + 86400 - c.offset)) := by
  have hhour := hs.hour
  obtain ⟨year, ⟨hfrom, huntil⟩ | ⟨hfrom, huntil⟩ | ⟨hfrom, huntil⟩ | ⟨hfrom, huntil⟩⟩ :=
    hs.toRegular.exists_stretch_of_wall (c.wall.seconds + 86400)
  · exact absurd (Seasons.offsetsOf_winter hs.toRegular year hfrom huntil) (hmany _)
  -- A day before the hour that is skipped it is winter, and summer after twenty-four hours.
  · have hspaced := hs.toRegular.spaced year
    have hlast := hs.toRegular.spaced (year - 1)
    rw [Int.sub_add_cancel] at hlast
    have hstandard := hc.offset_eq hs.toRegular
      (Seasons.offsetsOf_winter hs.toRegular year (by omega) (by omega))
    rw [Seasons.offsetAt_summer hs.toRegular year (by omega) (by omega)]
    exact .skipped (Seasons.offsetsOf_skipped hs.toRegular year hfrom huntil) (by omega)
  · exact absurd (Seasons.offsetsOf_summer hs.toRegular year hfrom huntil) (hmany _)
  -- A day before the hour that is repeated it is summer, and after twenty-four hours as well,
  -- except at the end of that hour.
  · have hspaced := hs.toRegular.spaced year
    have hnext := hs.toRegular.spaced (year + 1)
    have hdaylight := hc.offset_eq hs.toRegular
      (Seasons.offsetsOf_summer hs.toRegular year (by omega) (by omega))
    by_cases hturns : c.wall.seconds + 86400 = s.ending year
    · rw [Seasons.offsetAt_winter hs.toRegular (year + 1)
        (by rw [Int.add_sub_cancel]; omega) (by omega)]
      exact .turnedBack ⟨year, hturns⟩ (by omega)
    · have htwice := Seasons.offsetsOf_repeated hs.toRegular year hfrom huntil
      rw [Seasons.offsetAt_summer hs.toRegular year (by omega) (by omega)]
      refine .shown (fun hskips => ?_) (hs.toRegular.not_turnsBackAt hfrom (by omega)) (by omega)
      exact absurd (htwice.symm.trans hskips) (by simp)

/-- From a day to the next. -/
theorem lands_nextDay? (hs : s.Usual) (hc : s.Reads c) (hrange : c.instant.inRange)
    (hroom : (c.instant.plusDays 2).inRange) (h : nextDay? (.seasonal s) c = some c') :
    s.Reads c' ∧ c'.wall.nanos = c.wall.nanos ∧
      Lands s (c.wall.seconds + 86400) c'.wall.seconds := by
  rw [nextDay?] at h
  split at h
  case h_1 next hreading =>
      cases h
      obtain ⟨offset, honce, hreading⟩ := Calendar.Zone.exists_of_onlyReading? hreading
      have hwhole : (WallTime.mk (c.wall.seconds + Calendar.secondsPerDay) c.wall.nanos).IsWhole :=
        c.isWhole_wall
      obtain ⟨hwall, -, -⟩ := WallTime.wall_of_onClock? hwhole hreading
      obtain ⟨hshown, hturns⟩ := hs.toRegular.of_once honce
      refine ⟨Seasons.reads_of_onClock? hs.toRegular hwhole (by rw [honce]; rfl) hreading, ?_, ?_⟩
      · rw [hwall]
      · rw [hwall]
        exact .shown hshown hturns rfl
  case h_2 hnone =>
      have hmany := offsetsOf_ne_once hs hc hrange hroom hnone
      obtain ⟨later, hlater, rfl⟩ := Option.map_eq_some_iff.1 h
      rw [wall_clock_of_addSeconds? hlater]
      exact ⟨s.reads_clock later, rfl, lands_of_offsetsOf_ne_once hs hc hmany⟩

/-- A miss lasts: within the week the clock is not changed again. -/
theorem Misses.lasts {aim missed : Int} {days : Nat} (h : Misses s aim days missed)
    (hs : s.Usual) (hdays : days < 7) (hne : missed ≠ 0) :
    Misses s aim (days + 1) missed ∧ ¬ s.Skips (aim + (days + 1) * 86400 + missed) ∧
      ¬ s.TurnsBackAt (aim + (days + 1) * 86400 + missed) := by
  have hhour := hs.hour
  cases h with
  | never => exact absurd rfl hne
  | skipped passed hpassed hskips =>
      obtain ⟨year, hfrom, huntil⟩ := hs.toRegular.exists_of_skips hskips
      have hspaced := hs.toRegular.spaced year
      have hsummer : (Zone.seasonal s).offsetsOf (aim + (days + 1) * 86400 + 3600) =
          .once s.daylight :=
        Seasons.offsetsOf_summer hs.toRegular year (by omega) (by omega)
      exact ⟨.skipped passed (by omega) hskips, hs.toRegular.of_once hsummer⟩
  | turnedBack passed hlater hpassed hturns =>
      obtain ⟨year, hmoment⟩ := hturns
      have hspaced := hs.toRegular.spaced year
      have hnext := hs.toRegular.spaced (year + 1)
      have hwinter : (Zone.seasonal s).offsetsOf (aim + (days + 1) * 86400 + -3600) =
          .once s.standard :=
        Seasons.offsetsOf_winter hs.toRegular (year + 1) (by rw [Int.add_sub_cancel]; omega)
          (by omega)
      exact ⟨.turnedBack passed hlater (by omega) ⟨year, hmoment⟩,
        hs.toRegular.of_once hwinter⟩

theorem Misses.never_succ {aim : Int} {days : Nat} (h : Misses s aim days 0)
    (hnext : ¬ s.Skips (aim + (days + 1) * 86400) ∧ ¬ s.TurnsBackAt (aim + (days + 1) * 86400)) :
    Misses s aim (days + 1) 0 := by
  refine .never fun passed hpassed => ?_
  obtain hlt | rfl := Nat.lt_or_eq_of_le hpassed
  · cases h with
    | never hbefore => exact hbefore passed (Nat.le_of_lt_succ hlt)
  · rw [Int.natCast_succ]
    exact ⟨hnext.1, fun _ => hnext.2⟩

/-- What is missed stays within the day. -/
theorem Misses.date_eq {aim missed : Int} {days : Nat} (h : Misses s aim days missed)
    (hs : s.Usual) : (aim + days * 86400 + missed) / 86400 = aim / 86400 + days := by
  have hhour := hs.hour
  cases h with
  | never => omega
  | skipped passed hpassed hskips =>
      obtain ⟨year, hfrom, huntil⟩ := hs.toRegular.exists_of_skips hskips
      have hwithin := hs.beginsWithinDay
      simp only [Seasons.beginning, Calendar.secondsPerDay] at hfrom huntil
      omega
  | turnedBack passed hlater hpassed hturns =>
      obtain ⟨year, hmoment⟩ := hturns
      have hwithin := hs.endsWithinDay
      simp only [Seasons.ending, Calendar.secondsPerDay] at hmoment
      omega

/-- A reading some days after an aim, on the clock, except for what was missed. -/
structure Follows (s : Seasons) (aim : WallTime) (days : Nat) (missed : Int) (c : ClockTime) :
    Prop where
  reads : s.Reads c
  misses : Misses s aim.seconds days missed
  wall : c.wall = ⟨aim.seconds + days * 86400 + missed, aim.nanos⟩

variable {aim : WallTime} {missed : Int} {days : Nat}

theorem Follows.date_eq (h : Follows s aim days missed c) (hs : s.Usual) :
    c.wall.date = aim.date.addDays days := by
  rw [h.wall, WallTime.date, WallTime.date, Date.addDays, Calendar.secondsPerDay,
    h.misses.date_eq hs]

/-- One more day: as long as nothing was missed something may be, and a miss is carried along. -/
theorem Follows.next (h : Follows s aim days missed c) (hs : s.Usual) (hdays : days < 7)
    (hrange : c.instant.inRange) (hroom : (c.instant.plusDays 2).inRange)
    (hnext : nextDay? (.seasonal s) c = some c') :
    ∃ missed', Follows s aim (days + 1) missed' c' := by
  obtain ⟨hreads, hnanos, hlands⟩ := lands_nextDay? hs h.reads hrange hroom hnext
  have htarget : c.wall.seconds + 86400 = aim.seconds + (days + 1) * 86400 + missed := by
    rw [h.wall]
    dsimp only
    omega
  have hwall (missed' : Int)
      (heq : c'.wall.seconds = aim.seconds + (days + 1) * 86400 + missed') :
      c'.wall = ⟨aim.seconds + (days + 1 : Nat) * 86400 + missed', aim.nanos⟩ := by
    have haim : c.wall.nanos = aim.nanos := by rw [h.wall]
    rw [haim] at hnanos
    rw [← hnanos, Int.natCast_succ, ← heq]
  rw [htarget] at hlands
  by_cases hmissed : missed = 0
  · subst hmissed
    rw [Int.add_zero] at hlands
    cases hlands with
    | shown hshown hturns heq =>
        exact ⟨0, hreads, h.misses.never_succ ⟨hshown, hturns⟩, hwall 0 (by omega)⟩
    | skipped hskips heq =>
        exact ⟨3600, hreads, .skipped (days + 1) (Nat.le_refl _) hskips, hwall 3600 heq⟩
    | turnedBack hturns heq =>
        exact ⟨-3600, hreads, .turnedBack (days + 1) days.succ_pos (Nat.le_refl _) hturns,
          hwall (-3600) heq⟩
  · obtain ⟨hmisses, hshown, hturns⟩ := h.misses.lasts hs hdays hmissed
    cases hlands with
    | shown _ _ heq => exact ⟨missed, hreads, hmisses, hwall missed heq⟩
    | skipped hskips => exact absurd hskips hshown
    | turnedBack hback => exact absurd hback hturns

/-- Within the calendar there is a next day. -/
theorem exists_nextDay? (zone : Zone) (hrange : c.instant.inRange)
    (hroom : (c.instant.plusDays 2).inRange) : ∃ next, nextDay? zone c = some next := by
  have htomorrow : (Instant.mk (c.instant.micros + Calendar.secondsPerDay * 1000000)).inRange := by
    refine Instant.inRange_of_le_of_le hrange hroom ?_ ?_
    · simp only [Instant.le_def, Calendar.secondsPerDay]
      omega
    · simp only [Instant.le_def, Instant.plusDays, Calendar.secondsPerDay]
      omega
  rw [nextDay?]
  split
  · exact ⟨_, rfl⟩
  · exact ⟨_, by rw [Instant.addSeconds?, Instant.ofMicros?, if_pos htomorrow]; rfl⟩

/-- The way to an allowed day: it ends on the first one from the aim on. -/
theorem Follows.toAllowedDay (h : Follows s aim days missed c) (hs : s.Usual) {steps : Nat}
    (hsteps : days + steps = 7) (hrange : c.instant.inRange)
    (hroom : ((window.toAllowedDay (.seasonal s) steps c).instant.plusDays 2).inRange)
    (hbefore : ∀ d < days, (aim.date.addDays (d : Nat)).weekday ∉ window.days)
    (hahead : ∃ d : Nat, d < 7 ∧ (aim.date.addDays d).weekday ∈ window.days) :
    ∃ days', window.IsFirstDay aim.date days' ∧
      ∃ missed', Follows s aim days' missed' (window.toAllowedDay (.seasonal s) steps c) := by
  have hday := h.date_eq hs
  -- The days passed and the steps left are a week together, so an allowed day comes in between.
  induction steps generalizing c days missed with
  | zero =>
      obtain ⟨d, hd, hallowed⟩ := hahead
      exact absurd hallowed (hbefore d (by omega))
  | succ steps ih =>
      rw [DeliveryWindow.toAllowedDay] at hroom ⊢
      split
      case isTrue hallowed =>
          rw [hday, List.contains_iff_mem] at hallowed
          exact ⟨days, ⟨hallowed, hbefore⟩, missed, h⟩
      case isFalse hnot =>
          rw [if_neg hnot] at hroom
          rw [hday, List.contains_iff_mem] at hnot
          split at hroom
          case h_1 next hnext =>
              obtain ⟨hle, hseason⟩ := le_of_nextDay? hs.toRegular h.reads.eq_standard_or hnext
              have hend := le_toAllowedDay hs.toRegular window steps hseason
              have hnextRange : next.instant.inRange := Instant.inRange_of_le_of_le hrange hroom hle
                (Instant.le_trans hend (Instant.le_plusDays _ 2))
              have hspace : (c.instant.plusDays 2).inRange :=
                Instant.inRange_plusDays_of_le hrange (Instant.le_trans hle hend) hroom
              obtain ⟨missed', hfollows⟩ := h.next hs (by omega) hrange hspace hnext
              refine ih hfollows (by omega) hnextRange hroom (fun d hd => ?_) (hfollows.date_eq hs)
              obtain hlt | rfl := Nat.lt_or_eq_of_le (Nat.le_of_lt_succ hd)
              · exact hbefore d hlt
              · exact hnot
          case h_2 hnone =>
              obtain ⟨next, hnext⟩ := exists_nextDay? (.seasonal s) hrange hroom
              exact absurd (hnone.symm.trans hnext) (by simp)

/-! ## The opening -/

/-- A time that comes later on the clock, within two days, is found at its first reading. -/
theorem exists_firstReading? (hs : s.Usual) (ht : t.inRange) (hroom : (t.plusDays 2).inRange)
    (wall : WallTime) (hwhole : wall.IsWhole)
    (hlater : ((Zone.seasonal s).clock t).wall.seconds < wall.seconds)
    (hnear : wall.seconds ≤ ((Zone.seasonal s).clock t).wall.seconds + 86400 + 3600)
    (hshown : ¬ s.Skips wall.seconds) :
    ∃ c, (Zone.seasonal s).firstReading? wall = some c ∧ s.Reads c ∧ c.wall = wall := by
  have hhour := hs.hour
  have hnow : t.seconds + s.standard ≤ ((Zone.seasonal s).clock t).wall.seconds ∧
      ((Zone.seasonal s).clock t).wall.seconds ≤ t.seconds + s.daylight := by
    have hoffset := s.offsetAt_eq_or t.seconds
    simp only [Zone.clock, Zone.offsetAt, ClockTime.wall]
    omega
  rw [Instant.inRange_iff_seconds] at ht hroom
  rw [Instant.seconds_plusDays] at hroom
  have hread {offset : Int} (hoffset : offset = s.standard ∨ offset = s.daylight)
      (hfrom : Seasons.yearStart Date.minYear ≤ wall.seconds - offset) :
      ∃ c, wall.onClock? offset = some c :=
    wall.exists_onClock? offset hfrom (by omega)
  have hfound {offset : Int}
      (hfirst : ((Zone.seasonal s).offsetsOf wall.seconds).first? = some offset) :
      t.seconds < wall.seconds - offset ∧
        ∃ c, wall.onClock? offset = some c ∧ s.Reads c ∧ c.wall = wall := by
    have hlt : t.seconds < wall.seconds - offset :=
      Seasons.lt_of_clock_lt hs.toRegular hfirst hlater
    obtain ⟨c, hc⟩ := hread (Seasons.eq_or_of_first? hfirst) (by omega)
    exact ⟨hlt, c, hc, Seasons.reads_of_onClock? hs.toRegular hwhole hfirst hc,
      (WallTime.wall_of_onClock? hwhole hc).1⟩
  cases hoffsets : (Zone.seasonal s).offsetsOf wall.seconds with
  | skipped => exact absurd hoffsets hshown
  | once offset =>
      obtain ⟨-, c, hc, hreads⟩ := hfound (by rw [hoffsets]; rfl)
      exact ⟨c, by rw [Zone.firstReading?, hoffsets]; exact hc, hreads⟩
  | twice first second =>
      obtain ⟨hlt, c, hc, hreads⟩ := hfound (by rw [hoffsets]; rfl)
      obtain ⟨hsecond, hfrom⟩ := hs.toRegular.yearStart_le_second hoffsets ht.1 hlt
      obtain ⟨later, hlater⟩ := hread hsecond hfrom
      exact ⟨c, by rw [Zone.firstReading?, hoffsets]; simp [hc, hlater], hreads⟩

/-- The opening is found, an hour late if the clock skips it. -/
theorem exists_follows_atMinute? (hs : s.Usual) (ht : t.inRange) (hroom : (t.plusDays 2).inRange)
    (date : Date) (minute : Nat) {wall : WallTime} (hminute : .ofDate date (60 * minute) 0 = wall)
    (hlater : ((Zone.seasonal s).clock t).wall.seconds < wall.seconds)
    (hnear : wall.seconds ≤ ((Zone.seasonal s).clock t).wall.seconds + 86400) :
    ∃ c, atMinute? (.seasonal s) date minute = some c ∧ ∃ missed, Follows s wall 0 missed c := by
  have hhour := hs.hour
  have hnanos : wall.nanos = 0 := by rw [← hminute, WallTime.ofDate]
  have hwhole (seconds : Int) : (WallTime.mk seconds wall.nanos).IsWhole := by
    simp [WallTime.IsWhole, hnanos]
  simp only [atMinute?, hminute]
  by_cases hskips : s.Skips wall.seconds
  · obtain ⟨year, hfrom, huntil⟩ := hs.toRegular.exists_of_skips hskips
    have hspaced := hs.toRegular.spaced year
    have hsummer : (Zone.seasonal s).offsetsOf (wall.seconds + 3600) = .once s.daylight :=
      Seasons.offsetsOf_summer hs.toRegular year (by omega) (by omega)
    have hnone : (Zone.seasonal s).firstReading? wall = none := by
      rw [Zone.firstReading?, hskips]
    obtain ⟨c, hc, hreads, hwall⟩ := exists_firstReading? hs ht hroom _
      (hwhole (wall.seconds + 3600)) (by dsimp only; omega) (by dsimp only; omega)
      (hs.toRegular.of_once hsummer).1
    rw [hnone]
    exact ⟨c, hc, 3600, hreads, .skipped 0 (Nat.le_refl 0) (by simpa using hskips),
      by simp [hwall]⟩
  · obtain ⟨c, hc, hreads, hwall⟩ := exists_firstReading? hs ht hroom wall (hwhole wall.seconds)
      hlater (by omega) hskips
    rw [hc]
    refine ⟨c, rfl, 0, hreads, .never fun passed hpassed => ?_, by simp [hwall]⟩
    obtain rfl := Nat.le_zero.1 hpassed
    simpa using hskips

/-- The way to the window begins at the aim. -/
theorem exists_follows_nextOpening? (hs : s.Usual) (hopens : window.Opens) (ht : t.inRange)
    (hroom : (t.plusDays 2).inRange) :
    ∃ missed, Follows s (window.aim ((Zone.seasonal s).clock t).wall) 0 missed
      ((window.nextOpening? (.seasonal s) ((Zone.seasonal s).clock t).wall).getD
        ((Zone.seasonal s).clock t)) := by
  have hordered := hopens.ordered
  have hwithin : window.lastMinute ≤ 1439 := hopens.withinDay
  obtain ⟨hnow, hsecond⟩ := ((Zone.seasonal s).clock t).wall.seconds_eq
  have hopening (date : Date) : (WallTime.ofDate date (60 * window.firstMinute) 0).seconds =
      date.dayNumber * 86400 + 60 * window.firstMinute := by
    simp [WallTime.ofDate, Calendar.secondsPerDay]
  rw [nextOpening?, aim]
  split
  case isTrue hbefore =>
      rw [WallTime.minuteOfDay] at hbefore
      obtain ⟨c, hc, hfollows⟩ := exists_follows_atMinute? hs ht hroom
        ((Zone.seasonal s).clock t).wall.date window.firstMinute rfl
        (by rw [hopening]; omega) (by rw [hopening]; omega)
      rw [hc]
      exact hfollows
  split
  case isTrue hbefore hafter =>
      rw [WallTime.minuteOfDay] at hafter
      have hnext : (((Zone.seasonal s).clock t).wall.date.addDays 1).dayNumber =
          ((Zone.seasonal s).clock t).wall.date.dayNumber + 1 := rfl
      obtain ⟨c, hc, hfollows⟩ := exists_follows_atMinute? hs ht hroom
        (((Zone.seasonal s).clock t).wall.date.addDays 1) window.firstMinute rfl
        (by rw [hopening, hnext]; omega) (by rw [hopening, hnext]; omega)
      have htomorrow : (((Zone.seasonal s).clock t).wall.date.addDays 1).inRange := by
        have hshort := hs.short
        have hoffset := s.offsetAt_eq_or t.seconds
        have hahead := hs.ahead
        rw [Instant.inRange_iff_seconds] at ht hroom
        rw [Instant.seconds_plusDays] at hroom
        rw [Calendar.Date.inRange_iff]
        simp only [Seasons.yearStart, Date.addDays, WallTime.date, Zone.clock, Zone.offsetAt,
          ClockTime.wall, Calendar.secondsPerDay] at ht hroom ⊢
        omega
      dsimp only
      rw [if_pos htomorrow, hc]
      exact hfollows
  case isFalse hbefore hafter =>
      refine ⟨0, s.reads_clock t, .never fun passed hpassed => ?_, by simp⟩
      obtain rfl := Nat.le_zero.1 hpassed
      simpa using (s.reads_clock t).not_skips hs.toRegular

theorem nextOpening?_of_allows {wall : WallTime} (h : window.allows wall) (zone : Zone) :
    window.nextOpening? zone wall = none := by
  obtain ⟨-, hfirst, hlast⟩ := allows_iff.1 h
  rw [nextOpening?, if_neg (by omega), if_neg (by omega)]

/-- The way to the window and on to an allowed day. -/
theorem exists_follows_shift (hs : s.Usual) (hopens : window.Opens) (ht : t.inRange)
    (hroom : ((window.shift (.seasonal s) t).instant.plusDays 2).inRange) :
    ∃ days, window.IsFirstDay (window.aim ((Zone.seasonal s).clock t).wall).date days ∧
      ∃ missed, Follows s (window.aim ((Zone.seasonal s).clock t).wall) days missed
        (window.shift (.seasonal s) t) := by
  have hroomNow : (t.plusDays 2).inRange :=
    Instant.inRange_plusDays_of_le ht (le_shift_seasonal hs.toRegular window t) hroom
  obtain ⟨missed, hfollows⟩ := exists_follows_nextOpening? hs hopens ht hroomNow
  obtain ⟨hle, hseason⟩ := le_opening hs.toRegular window t
  rw [shift] at hroom ⊢
  split
  case isTrue hallowed =>
      rw [nextOpening?_of_allows hallowed] at hfollows
      refine ⟨0, ⟨?_, fun d hd => absurd hd (Nat.not_lt_zero d)⟩, missed, hfollows⟩
      rw [← hfollows.date_eq hs]
      exact (allows_iff.1 hallowed).1
  case isFalse hnot =>
      rw [if_neg hnot] at hroom
      have hrange := Instant.inRange_of_le_of_le ht hroom hle
        (Instant.le_trans (le_toAllowedDay hs.toRegular window 7 hseason) (Instant.le_plusDays _ 2))
      obtain ⟨day, hday⟩ := List.exists_mem_of_ne_nil _ hopens.someDay
      obtain ⟨ahead, hahead, hweekday⟩ :=
        (window.aim ((Zone.seasonal s).clock t).wall).date.exists_weekday day
      exact hfollows.toAllowedDay hs rfl hrange hroom (fun d hd => absurd hd (Nat.not_lt_zero d))
        ⟨ahead, hahead, by rwa [hweekday]⟩

/-! ## The aim -/

/-- The aim is within the minutes of the window. -/
theorem minuteOfDay_aim (hopens : window.Opens) (wall : WallTime) :
    window.firstMinute ≤ (window.aim wall).minuteOfDay ∧
      (window.aim wall).minuteOfDay ≤ window.lastMinute := by
  have hordered := hopens.ordered
  have hwithin : window.lastMinute ≤ 1439 := hopens.withinDay
  have hfirst (date : Date) :
      (WallTime.ofDate date (60 * window.firstMinute) 0).minuteOfDay = window.firstMinute := by
    simp only [WallTime.minuteOfDay, WallTime.secondOfDay, WallTime.ofDate, Calendar.secondsPerDay]
    omega
  rw [aim]
  split
  · rw [hfirst]
    exact ⟨Nat.le_refl _, hordered⟩
  split
  · rw [hfirst]
    exact ⟨Nat.le_refl _, hordered⟩
  · omega

/-- The aim is allowed on an allowed day. -/
theorem Follows.allows (hopens : window.Opens) {wall : WallTime}
    (h : Follows s (window.aim wall) days 0 c) (hs : s.Usual)
    (hday : ((window.aim wall).date.addDays days).weekday ∈ window.days) :
    window.allows c.wall := by
  have hdate := h.date_eq hs
  have hminutes := minuteOfDay_aim hopens wall
  have hminute : c.wall.minuteOfDay = (window.aim wall).minuteOfDay := by
    have hsecond : ((window.aim wall).seconds + days * 86400 + 0) % 86400 =
        (window.aim wall).seconds % 86400 := by omega
    rw [h.wall, WallTime.minuteOfDay, WallTime.minuteOfDay, WallTime.secondOfDay,
      WallTime.secondOfDay, Calendar.secondsPerDay, hsecond]
  rw [allows_iff, hdate, hminute]
  exact ⟨hday, hminutes⟩

end

end Targeting.DeliveryWindow

namespace Targeting.Notification

open Calendar (Instant Seasons Zone)
open DeliveryWindow (Misses)

/-- A time that is moved into the window of a notification ends on the first allowed day from the
one it aims at. The time of day is the one it aims at, which is within the minutes of the window,
except for an hour that is missed if the clock is changed just then on one of the days passed. -/
theorem shift_on_seasonal_clock {n : Notification} (hchecked : n.IsChecked) {s : Seasons}
    (hs : s.Usual) {t : Instant} (ht : t.inRange)
    (hroom : ((n.window.shift (.seasonal s) t).instant.plusDays 2).inRange) :
    let c := n.window.shift (.seasonal s) t
    let aim := n.window.aim ((Zone.seasonal s).clock t).wall
    ∃ days missed, n.window.IsFirstDay aim.date days ∧ Misses s aim.seconds days missed ∧
      c.wall = ⟨aim.seconds + days * 86400 + missed, aim.nanos⟩ ∧
      c.wall.date = aim.date.addDays days ∧ (missed = 0 → n.window.allows c.wall) ∧
      (c = (Zone.seasonal s).clock c.instant ∨ ∃ year, c.wall.seconds = s.beginning year) := by
  intro c aim
  have hopens := hchecked.sound.opens
  obtain ⟨days, hfirst, missed, hfollows⟩ :=
    DeliveryWindow.exists_follows_shift hs hopens ht hroom
  refine ⟨days, missed, hfirst, hfollows.misses, hfollows.wall, hfollows.date_eq hs,
    fun hmissed => ?_, hfollows.reads.eq_clock_or⟩
  subst hmissed
  exact hfollows.allows hopens hs hfirst.1

/-- A reminder for Monday nights at half past two that is due on the Saturday before the clock goes
forward aims at the Sunday first, when this time is skipped, and is delivered an hour late on the
Monday, when it is not, outside of its window. -/
theorem monday_after_clock_change :
    let draft : NotificationDraft :=
      { title := some "Reminder", body := none, badgeCount := none, tapAction := none
        sound := none, launchImage := none, relevance := none, interruption := none
        scheduleCondition := none, due := ⟨some 1710003600, none, none, none⟩
        days := some "Monday", dayStart := some "02:30", dayEnd := some "03:15", ideal := none
        cancelationEvents := none }
    let window : DeliveryWindow := ⟨[.monday], 150, 195⟩
    let t : Instant := ⟨1710003600000000⟩
    let c := window.shift (.seasonal .eastern) t
    (∃ n, ofDraft ⟨.strict, []⟩ "reminder" draft = .ok n ∧ n.window = window) ∧
      c = (Zone.seasonal .eastern).clock ⟨1710142200000000⟩ ∧ ¬ window.allows c.wall ∧
      Misses .eastern (window.aim ((Zone.seasonal .eastern).clock t).wall).seconds 1 3600 := by
  intro draft window t c
  have hwindow : ∃ n, ofDraft ⟨.strict, []⟩ "reminder" draft = .ok n ∧ n.window = window :=
    ⟨_, rfl, rfl⟩
  have hc : c = (Zone.seasonal .eastern).clock ⟨1710142200000000⟩ := by decide +kernel
  obtain ⟨n, hn, hnwindow⟩ := hwindow
  obtain ⟨days, missed, -, hmisses, hwall, hdate, -, -⟩ :=
    shift_on_seasonal_clock ⟨_, _, _, hn⟩ Seasons.eastern_usual (t := t) (by decide)
      (by rw [hnwindow]; decide +kernel)
  have haim : window.aim ((Zone.seasonal .eastern).clock t).wall = ⟨1710037800, 0⟩ := by
    decide +kernel
  have hshown : (window.shift (.seasonal .eastern) t).wall = ⟨1710127800, 0⟩ := by decide +kernel
  rw [hnwindow, haim] at hmisses
  rw [hnwindow, haim, hshown] at hwall hdate
  have hdays : days = 1 := by
    simp only [Calendar.WallTime.date, Calendar.Date.addDays, Calendar.secondsPerDay,
      Calendar.Date.mk.injEq] at hdate
    omega
  have hmissed : missed = 3600 := by
    have hseconds := congrArg Calendar.WallTime.seconds hwall
    rw [hdays] at hseconds
    dsimp only at hseconds
    omega
  rw [hdays, hmissed] at hmisses
  exact ⟨⟨n, hn, hnwindow⟩, hc, by decide +kernel, by rw [haim]; exact hmisses⟩

end Targeting.Notification
