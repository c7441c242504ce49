/-
# Moving into a delivery window

A time that is not allowed is moved forward: first to the beginning of the window, on the same
day or on the next, and then by whole days on the clock until the day is allowed. A time of day
that the clock skips counts as the hour after it; where the clock repeats a time of day, or
skips it, a day is twenty-four hours.
-/

import Targeting.Notification.Basic

namespace Targeting.DeliveryWindow

open Calendar (ClockTime Date Instant WallTime Zone)

/-- Whether delivery is allowed at an instant. -/
def allowsAt (window : DeliveryWindow) (zone : Zone) (t : Instant) : Bool :=
  window.allows (zone.clock t).wall

/-- The first reading of a minute of a day, an hour later if the clock skips the minute. -/
def atMinute? (zone : Zone) (date : Date) (minute : Nat) : Option ClockTime :=
  let wall := WallTime.ofDate date (60 * minute) 0
  match zone.firstReading? wall with
  | some c => some c
  | none => zone.firstReading? { wall with seconds := wall.seconds + 3600 }

/-- The beginning of the window that comes next when the minute of the day is outside of it. -/
def nextOpening? (window : DeliveryWindow) (zone : Zone) (wall : WallTime) : Option ClockTime :=
  if wall.minuteOfDay < window.firstMinute then atMinute? zone wall.date window.firstMinute
  else if window.lastMinute < wall.minuteOfDay then
    let tomorrow := wall.date.addDays 1
    if tomorrow.inRange then atMinute? zone tomorrow window.firstMinute else none
  else none

/-- The same time of day on the next day; twenty-four hours later where that is not one
instant. -/
def nextDay? (zone : Zone) (c : ClockTime) : Option ClockTime :=
  match zone.onlyReading? { c.wall with seconds := c.wall.seconds + Calendar.secondsPerDay } with
  | some next => some next
  | none => (c.instant.addSeconds? Calendar.secondsPerDay).map zone.clock

/-- Move forward by at most a number of days to an allowed one. -/
def toAllowedDay (window : DeliveryWindow) (zone : Zone) : Nat → ClockTime → ClockTime
  | 0, c => c
  | days + 1, c =>
    if window.days.contains c.wall.date.weekday then c
    else
      match nextDay? zone c with
      | some next => toAllowedDay window zone days next
      | none => c

/-- Move forward, never back, to a time at which delivery is allowed. -/
def shift (window : DeliveryWindow) (zone : Zone) (t : Instant) : ClockTime :=
  let c := zone.clock t
  if window.allows c.wall then c
  else toAllowedDay window zone 7 ((window.nextOpening? zone c.wall).getD c)

end Targeting.DeliveryWindow
