/-
# Dates in conditions

Times of conditions are milliseconds since 1970. They are written along a date pattern in a
zone, and read back from texts. Some patterns have names that conditions can use like
properties, and some have short names inside `formatTime`. Text of a number is a number.
-/

import Targeting.Calendar.Print
import Targeting.Calendar.Read
import Targeting.Condition.Builtin

namespace Targeting.Condition

namespace DateText

open Calendar

/-- Patterns that conditions can name. -/
def constants : List (String × String) :=
  [("RFC3339", "%Y-%m-%dT%H:%M:%S%.f%:z"),
    ("RFC822", "%d %b %y %H:%M %Z"),
    ("RFC850", "%A, %d-%b-%y %H:%M:%S %Z"),
    ("RFC1123", "%a, %d %b %Y %H:%M:%S %Z"),
    ("RFC822Z", "%d %b %y %H:%M %z"),
    ("RFC1123Z", "%a, %d %b %Y %H:%M:%S %z"),
    ("date_with_tz_format", "%Y-%m-%d%:z"),
    ("date_and_time_format", "%Y-%m-%d %H:%M:%S%.f"),
    ("date_format", "%Y-%m-%d")]

/-- The pattern that a name stands for. -/
def constant? (name : String) : Option String :=
  constants.lookup name

/-- Patterns with a short name inside `formatTime`. -/
def shortcuts : List (String × String) :=
  [("dow_short", "%a"),
    ("dow_long", "%A"),
    ("dom", "%d"),
    ("hod", "%H"),
    ("moh", "%M"),
    ("ampm", "%p"),
    ("month", "%m"),
    ("month_short", "%b"),
    ("month_long", "%B"),
    ("year", "%Y")]

/-- The zone of an optional zone name; without one it is the device's own. -/
def zone? (device : Zone) : Option String → Option Zone
  | none => some device
  | some name => if name = "" then some device else Zone.parse? device name

/-- The text of a reading along a pattern, a short name, or `dow` for the weekday's number. -/
def write (reading : Reading) (pattern : String) : Option (List Char) :=
  if pattern = "dow" then some (Digits.ofNat reading.wall.date.weekday.fromSunday)
  else do
    let pieces ← Pattern.parse? ((shortcuts.lookup pattern).getD pattern)
    Print.pieces reading pieces

/-- Write a time. The result is an integer when the text is a numeral, and nil when the pattern
or the zone is not usable, the time is out of range or nothing is written. -/
def format (device : Zone) (millis : Int64) (pattern : String) (zoneName : Option String) :
    Value :=
  let written := do
    let zone ← zone? device zoneName
    let instant ← Instant.ofMillis? millis.toInt
    write (zone.reading instant) pattern
  match written with
  | none | some [] => .nil
  | some text =>
    match Word.parse? text with
    | some i => .int i
    | none => .text (String.ofList text)

/-- Milliseconds of the first reading of a wall time in a zone. -/
def resolve (zone : Zone) (wall : WallTime) : Option Int :=
  (zone.firstReading? wall).map fun reading => reading.instant.millis

/-- A timestamp in the strict form. -/
def parseTimestamp (text : String) : Option Int :=
  (Instant.parse? text).map Instant.millis

/-- The start of a date in a zone. -/
def startOfDate (zone : Zone) (clues : Clues) : Option Int :=
  match clues.date with
  | .ok date => resolve zone (WallTime.ofDate date 0 0)
  | .error _ => none

/-- Clues of a text along a pattern. -/
def clues? (pattern text : String) : Option Clues := do
  let pieces ← Pattern.parse? pattern
  Clues.read? pieces text

/-- Take the characters that make up a number of bytes, if some do. -/
def takeBytes : Nat → List Char → Option (List Char × List Char)
  | 0, text => some ([], text)
  | _ + 1, [] => none
  | bytes + 1, c :: rest =>
    if c.utf8Size ≤ bytes + 1 then
      (takeBytes (bytes + 1 - c.utf8Size) rest).map fun (taken, rest) => (c :: taken, rest)
    else none

/-- A date of ten bytes followed by `Z` or an offset: the start of that date in that zone. -/
def parseDateWithZone (text : String) : Option Int := do
  let (date, rest) ← takeBytes 10 text.toList
  let clues ← clues? "%Y-%m-%d" (String.ofList date)
  let zone ← if rest = ['Z'] then some .utc else (parseOffset? rest).map .fixed
  startOfDate zone clues

/-- A date and time along a pattern, as a clock shows them. -/
def parseWall (pattern text : String) : Option WallTime := do
  let clues ← clues? pattern text
  clues.wall? 0

/-- Read a date without a pattern: a timestamp, a date with a zone, a date and time, or a date.
A text that is readable as one form is not tried as a later one. -/
def parseAny (zone : Zone) (text : String) : Option Int :=
  match parseTimestamp text with
  | some millis => some millis
  | none =>
    match parseDateWithZone text with
    | some millis => some millis
    | none =>
      match parseWall "%Y-%m-%dT%H:%M:%S%.f" text with
      | some wall => resolve zone wall
      | none =>
        match parseWall "%Y-%m-%d %H:%M:%S%.f" text with
        | some wall => resolve zone wall
        | none => do
          let clues ← clues? "%Y-%m-%d" text
          startOfDate zone clues

/-- Read a date along a pattern. The text's own offset decides; without one the text is read in
the zone, as date and time or as a date alone. -/
def parseAlong (zone : Zone) (pattern text : String) : Option Int := do
  let clues ← clues? pattern text
  match clues.instant? with
  | some instant => some instant.millis
  | none =>
    match clues.wall? 0 with
    | some wall => resolve zone wall
    | none => startOfDate zone clues

/-- Read a date as milliseconds since 1970. -/
def parse (device : Zone) (text : String) (pattern zoneName : Option String) : Option Int64 := do
  let zone ← zone? device zoneName
  let pattern := pattern.getD ""
  let millis ←
    if pattern = "" then parseAny zone text
    else if constant? "RFC3339" = some pattern then parseTimestamp text
    else if constant? "date_with_tz_format" = some pattern then parseDateWithZone text
    else parseAlong zone pattern text
  Word.ofInt? millis

/-- Milliseconds of an amount of a unit. Integers are exact; other numbers are rounded, a half
away from zero. -/
def duration? (unit : TimeUnit) : Value → Option Int64
  | .int i => Word.mul? i unit.millis
  | .float x => some (Binary64.toWord (x * Binary64.ofWord unit.millis))
  | _ => none

/-- The time of a count since 1970; nanoseconds are rounded down. -/
def unixTime? (unit : EpochUnit) (amount : Int64) : Option Int64 :=
  match unit with
  | .nanoseconds => Word.ofInt? (amount.toInt / 1000000)
  | .milliseconds => some amount
  | .seconds => Word.mul? amount 1000

end DateText

end Targeting.Condition
