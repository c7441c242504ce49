/-
# Writing dates

A date is written piece by piece from the wall time, the offset of the clock and the name of
its zone. Years outside 0 to 9999 carry a sign. A piece that cannot be written, such as the
lenient offset, makes the whole text absent.
-/

import Targeting.Calendar.Pattern
import Targeting.Calendar.Zone
import Targeting.Number.Digits

namespace Targeting.Calendar

/-- A wall time together with what its clock says about itself. -/
structure Reading where
  wall : WallTime
  offset : Int
  zoneName : List Char
  deriving Repr, DecidableEq

namespace Print

/-- Two digits, the tens left out or blank below ten. Tens beyond nine go on in the order of
the characters after the digits. -/
def twoDigits (padding : Padding) (n : Nat) : List Char :=
  let ones := Char.ofNat (48 + n % 10)
  match n / 10, padding with
  | 0, .none => [ones]
  | 0, .space => [' ', ones]
  | tens, _ => [Char.ofNat (48 + tens), ones]

/-- A number filled up to a width that includes its sign, if it has one. -/
def filled (padding : Padding) (width : Nat) (sign : List Char) (n : Nat) : List Char :=
  match padding with
  | .none => sign ++ Digits.ofNat n
  | .zero => sign ++ Digits.padded '0' (width - sign.length) n
  | .space =>
    let body := sign ++ Digits.ofNat n
    List.replicate (width - body.length) ' ' ++ body

/-- The sign of a number that only shows one when negative. -/
def minus (z : Int) : List Char := if z < 0 then ['-'] else []

/-- A year in four places; outside 0 to 9999 it carries a sign in a fifth. -/
def year (padding : Padding) (y : Int) : List Char :=
  if 0 ≤ y ∧ y < 10000 then filled padding 4 [] y.natAbs
  else filled padding 5 (if y < 0 then ['-'] else ['+']) y.natAbs

/-- An hour on a twelve-hour clock. -/
def hour12 (hour : Nat) : Nat :=
  if hour % 12 = 0 then 12 else hour % 12

/-- The text of a number of the date. The century is reduced to a byte. -/
def number (r : Reading) (field : Field) (padding : Padding) : List Char :=
  let date := r.wall.date
  match field with
  | .year => year padding date.year
  | .century => twoDigits padding (date.year / 100 % 256).toNat
  | .yearOfCentury => twoDigits padding (date.year % 100).toNat
  | .isoYear => year padding date.isoYear
  | .isoYearOfCentury => twoDigits padding (date.isoYear % 100).toNat
  | .isoWeek => twoDigits padding date.isoWeek
  | .quarter => Digits.ofNat date.quarter
  | .month => twoDigits padding date.month
  | .day => twoDigits padding date.day
  | .ordinal => filled padding 3 [] date.ordinal
  | .weekFromSunday => twoDigits padding date.weekFromSunday
  | .weekFromMonday => twoDigits padding date.weekFromMonday
  | .weekdayFromSunday => Digits.ofNat date.weekday.fromSunday
  | .weekdayFromMonday => Digits.ofNat (date.weekday.fromMonday + 1)
  | .hour => twoDigits padding r.wall.hour
  | .hour12 => twoDigits padding (hour12 r.wall.hour)
  | .minute => twoDigits padding r.wall.minute
  | .second => twoDigits padding r.wall.second
  | .nanosecond => filled padding 9 [] r.wall.nanosecond
  | .timestamp =>
    let seconds := r.wall.seconds - r.offset
    filled padding 9 (minus seconds) seconds.natAbs

/-- An offset in hours, minutes or seconds. Without seconds it is rounded to minutes. -/
def offset (style : OffsetStyle) (seconds : Int) : List Char :=
  let sign := if seconds < 0 then '-' else '+'
  let size := seconds.natAbs
  let two := Digits.padded '0' 2
  let minutes := (size + 30) / 60
  match style with
  | .plain => sign :: two (minutes / 60) ++ two (minutes % 60)
  | .colon => sign :: two (minutes / 60) ++ ':' :: two (minutes % 60)
  | .seconds => sign :: two (size / 3600) ++ ':' :: two (size / 60 % 60) ++ ':' :: two (size % 60)
  | .hours => sign :: two (size / 3600)

/-- The point and digits of a fraction in as few groups of three as it needs; nothing for a
whole second. -/
def fraction (nanos : Nat) : List Char :=
  if nanos = 0 then []
  else if nanos % 1000000 = 0 then '.' :: Digits.padded '0' 3 (nanos / 1000000)
  else if nanos % 1000 = 0 then '.' :: Digits.padded '0' 6 (nanos / 1000)
  else '.' :: Digits.padded '0' 9 nanos

/-- The first digits of a fraction. -/
def fractionDigits (places nanos : Nat) : List Char :=
  Digits.padded '0' places (nanos / Nat.pow 10 (9 - places))

/-- The text of a piece. -/
def piece (r : Reading) : Piece → Option (List Char)
  | .literal text => some text
  | .space text => some text
  | .number field padding => some (number r field padding)
  | .monthName long =>
    let name := (monthName r.wall.date.month).toList
    some (if long then name else name.take 3)
  | .weekdayName long =>
    let day := r.wall.date.weekday
    some (if long then day.name else day.shortName).toList
  | .meridiem lower =>
    let afternoon := 12 ≤ r.wall.hour
    some (match lower, decide afternoon with
      | true, true => ['p', 'm']
      | true, false => ['a', 'm']
      | false, true => ['P', 'M']
      | false, false => ['A', 'M'])
  | .fraction none => some (fraction r.wall.nanosecond)
  | .fraction (some places) => some ('.' :: fractionDigits places r.wall.nanosecond)
  | .fractionDigits places => some (fractionDigits places r.wall.nanosecond)
  | .zoneName => some r.zoneName
  | .offset style => some (offset style r.offset)
  | .anyOffset => none
  | .timestampText =>
    some (year .zero r.wall.date.year ++ '-' :: twoDigits .zero r.wall.date.month ++
      '-' :: twoDigits .zero r.wall.date.day ++ 'T' :: twoDigits .zero r.wall.hour ++
      ':' :: twoDigits .zero r.wall.minute ++ ':' :: twoDigits .zero r.wall.second ++
      fraction r.wall.nanosecond ++ offset .colon r.offset)

/-- The text of all pieces in order. -/
def pieces (r : Reading) : List Piece → Option (List Char)
  | [] => some []
  | first :: rest => do
    let text ← piece r first
    let texts ← pieces r rest
    pure (text ++ texts)

end Print

/-- What a clock in a zone reads at an instant. Only UTC has a name; other zones are named by
their offset. -/
def Zone.reading (z : Zone) (t : Instant) : Reading :=
  let offset := z.offsetAt t.seconds
  let name := match z with
    | .utc => ['U', 'T', 'C']
    | _ => if offset % 60 = 0 then Print.offset .colon offset else Print.offset .seconds offset
  ⟨(z.clock t).wall, offset, name⟩

end Targeting.Calendar
