/-
# Instants, wall times and zones

An instant is a point on the time line, counted in microseconds since 1970. A wall time is
what a clock shows: seconds since 1970-01-01T00:00:00 on that clock, and a fraction. A zone
relates the two. Every instant has one wall time in a zone, but where a zone changes its
offset a wall time may have no instant, or two.

A seasonal zone changes its offset twice a year, on a given weekday of a given month. When
the clock goes forward the skipped hour has no instant; the moment it begins at still counts
as standard time. When the clock goes back an hour repeats, both ends included, and its
first reading is standard time.
-/

import Targeting.Calendar.Civil

namespace Targeting.Calendar

/-- Seconds of a day. -/
def secondsPerDay : Int := 86400

/-- A point in time, in microseconds since 1970-01-01T00:00:00 UTC. -/
structure Instant where
  micros : Int
  deriving Repr, DecidableEq

namespace Instant

instance : LE Instant := ⟨fun a b => a.micros ≤ b.micros⟩
instance : LT Instant := ⟨fun a b => a.micros < b.micros⟩
instance (a b : Instant) : Decidable (a ≤ b) := inferInstanceAs (Decidable (a.micros ≤ b.micros))
instance (a b : Instant) : Decidable (a < b) := inferInstanceAs (Decidable (a.micros < b.micros))

/-- Whether the instant lies in the supported years, in UTC. -/
def inRange (t : Instant) : Bool :=
  (Date.mk (t.micros / 1000000 / secondsPerDay)).inRange

/-- The instant of a count of microseconds, if it is in range. -/
def ofMicros? (micros : Int) : Option Instant :=
  if (Instant.mk micros).inRange then some ⟨micros⟩ else none

/-- The instant of a count of milliseconds, if it is in range. -/
def ofMillis? (millis : Int) : Option Instant := ofMicros? (millis * 1000)

/-- The instant of a count of seconds, if it is in range. -/
def ofSeconds? (seconds : Int) : Option Instant := ofMicros? (seconds * 1000000)

/-- Whole milliseconds, rounded down. -/
def millis (t : Instant) : Int := t.micros / 1000

/-- Whole seconds, rounded down. -/
def seconds (t : Instant) : Int := t.micros / 1000000

/-- Move by a number of seconds, if the result is in range. -/
def addSeconds? (t : Instant) (n : Int) : Option Instant := ofMicros? (t.micros + n * 1000000)

/-- The earlier of two instants. -/
def earlier (a b : Instant) : Instant := if b < a then b else a

end Instant

/-- What a clock shows. The nanoseconds reach a full second more in a leap second. -/
structure WallTime where
  seconds : Int
  nanos : Nat
  deriving Repr, DecidableEq

namespace WallTime

/-- Date on the clock. -/
def date (w : WallTime) : Date := ⟨w.seconds / secondsPerDay⟩

/-- Seconds since midnight. -/
def secondOfDay (w : WallTime) : Nat := (w.seconds % secondsPerDay).toNat

/-- Hour of the day, 0 to 23. -/
def hour (w : WallTime) : Nat := w.secondOfDay / 3600

/-- Minute of the hour. -/
def minute (w : WallTime) : Nat := w.secondOfDay / 60 % 60

/-- Minute of the day, 0 to 1439. -/
def minuteOfDay (w : WallTime) : Nat := w.secondOfDay / 60

/-- Second of the minute; a leap second is the sixtieth. -/
def second (w : WallTime) : Nat := w.secondOfDay % 60 + w.nanos / 1000000000

/-- Nanosecond of the second. -/
def nanosecond (w : WallTime) : Nat := w.nanos % 1000000000

/-- The wall time at a second of a day. -/
def ofDate (date : Date) (secondOfDay : Nat) (nanos : Nat) : WallTime :=
  ⟨date.dayNumber * secondsPerDay + secondOfDay, nanos⟩

end WallTime

/-- The day of a month on which a zone changes its offset: a weekday and which of them in the
month, the fifth standing for the last. -/
structure ChangeDay where
  month : Nat
  occurrence : Nat
  weekday : Weekday
  deriving Repr, DecidableEq

/-- The date of the change in a year. -/
def ChangeDay.date (c : ChangeDay) (year : Int) : Date :=
  let first := Date.ofCivil year c.month 1
  let shift := (c.weekday.fromSunday + 7 - first.weekday.fromSunday) % 7
  let day := 1 + shift + 7 * (c.occurrence - 1)
  Date.ofCivil year c.month (if daysInMonth year c.month < day then day - 7 else day)

/-- A zone with standard time and daylight time. Offsets are seconds ahead of UTC; daylight
time is ahead of standard time and begins earlier in the year than it ends. The changes
happen at a second of the day on the clock that is about to change. -/
structure Seasons where
  standard : Int
  daylight : Int
  begins : ChangeDay
  beginsAt : Nat
  ends : ChangeDay
  endsAt : Nat
  deriving Repr, DecidableEq

namespace Seasons

/-- Wall seconds, on the standard clock, at which daylight time begins in a year. -/
def beginning (s : Seasons) (year : Int) : Int :=
  (s.begins.date year).dayNumber * secondsPerDay + s.beginsAt

/-- Wall seconds, on the daylight clock, at which daylight time ends in a year. -/
def ending (s : Seasons) (year : Int) : Int :=
  (s.ends.date year).dayNumber * secondsPerDay + s.endsAt

/-- Offset in force at a second since 1970 in UTC. -/
def offsetAt (s : Seasons) (utc : Int) : Int :=
  let year := (Date.mk (utc / secondsPerDay)).year
  if s.beginning year - s.standard ≤ utc ∧ utc < s.ending year - s.daylight then s.daylight
  else s.standard

/-- Five hours behind UTC, daylight time from the second Sunday of March to the first Sunday
of November, changing at two o'clock. -/
def eastern : Seasons where
  standard := -18000
  daylight := -14400
  begins := ⟨3, 2, .sunday⟩
  beginsAt := 7200
  ends := ⟨11, 1, .sunday⟩
  endsAt := 7200

end Seasons

/-- Relation of wall time to time: UTC itself, a fixed number of seconds ahead of it, or a
clock that is changed twice a year. -/
inductive Zone where
  | utc
  | fixed (offset : Int)
  | seasonal (seasons : Seasons)
  deriving Repr, DecidableEq

/-- The offsets a wall time can have. -/
inductive Offsets where
  | skipped
  | once (offset : Int)
  | twice (first second : Int)
  deriving Repr, DecidableEq

namespace Zone

/-- Offset in force at an instant, given in seconds of UTC. -/
def offsetAt : Zone → Int → Int
  | utc, _ => 0
  | fixed offset, _ => offset
  | seasonal seasons, seconds => seasons.offsetAt seconds

/-- Offsets that a wall time, given in wall seconds, can have. -/
def offsetsOf : Zone → Int → Offsets
  | utc, _ => .once 0
  | fixed offset, _ => .once offset
  | seasonal s, wall =>
    let year := (Date.mk (wall / secondsPerDay)).year
    let gain := s.daylight - s.standard
    if wall ≤ s.beginning year then .once s.standard
    else if wall < s.beginning year + gain then .skipped
    else if wall < s.ending year - gain then .once s.daylight
    else if wall ≤ s.ending year then .twice s.standard s.daylight
    else .once s.standard

end Zone

/-- The instant at which a clock with a given offset shows a wall time, if its second is in
range. -/
def WallTime.instantAt? (w : WallTime) (offset : Int) : Option Instant :=
  let second := w.seconds - offset
  if (Date.mk (second / secondsPerDay)).inRange then
    some ⟨second * 1000000 + (w.nanos / 1000 : Nat)⟩
  else none

/-- An instant on a clock that is a number of seconds ahead of UTC. -/
structure ClockTime where
  instant : Instant
  offset : Int
  deriving Repr, DecidableEq

/-- What the clock shows. -/
def ClockTime.wall (c : ClockTime) : WallTime :=
  ⟨c.instant.seconds + c.offset, (c.instant.micros % 1000000).toNat * 1000⟩

/-- A wall time on a clock with a given offset, if its second is in range. -/
def WallTime.onClock? (w : WallTime) (offset : Int) : Option ClockTime :=
  (w.instantAt? offset).map fun t => ⟨t, offset⟩

namespace Zone

/-- An instant on the clock of the zone. -/
def clock (z : Zone) (t : Instant) : ClockTime := ⟨t, z.offsetAt t.seconds⟩

/-- The first reading of a wall time, absent when the clock skips it. The clock keeps the offset
of the reading, also at the moment at which the zone changes it. -/
def firstReading? (z : Zone) (w : WallTime) : Option ClockTime :=
  match z.offsetsOf w.seconds with
  | .skipped => none
  | .once offset => w.onClock? offset
  | .twice first second => do
    let reading ← w.onClock? first
    let _ ← w.onClock? second
    pure reading

/-- The only reading of a wall time, absent when the clock skips or repeats it. -/
def onlyReading? (z : Zone) (w : WallTime) : Option ClockTime :=
  match z.offsetsOf w.seconds with
  | .once offset => w.onClock? offset
  | _ => none

end Zone

/-- Whether a text is a plus or minus sign and four digits with any number of colons among
them, and the seconds it stands for. -/
def parseOffset? : List Char → Option Int
  | [] => none
  | sign :: rest =>
    if sign = '+' ∨ sign = '-' then
      match rest.filter (· ≠ ':') with
      | [a, b, c, d] => do
        if [a, b, c, d].all Char.isDigit then
          let value := fun (x : Char) => x.toNat - '0'.toNat
          let seconds : Nat := (10 * value a + value b) * 3600 + (10 * value c + value d) * 60
          if seconds < 86400 then
            some (if sign = '-' then -(seconds : Int) else seconds)
          else none
        else none
      | _ => none
    else none

/-- A zone by name: the device's own zone, UTC, or a fixed offset such as `+07:00`. Offsets of
a day or more and named regions are refused. -/
def Zone.parse? (device : Zone) (name : String) : Option Zone :=
  if name = "Local" then some device
  else if name = "UTC" ∨ name = "Z" then some .utc
  else (parseOffset? name.toList).map .fixed

end Targeting.Calendar
