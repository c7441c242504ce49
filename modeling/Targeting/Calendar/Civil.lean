/-
# The civil calendar

Dates are numbered: day 0 is 1970-01-01, and the proleptic Gregorian calendar extends in both
directions. Year, month and day are a view of the number, so moving a date by days, its
weekday and the order of dates are plain integer arithmetic. The conversion counts years
from the first of March, which puts the leap day last.
-/

namespace Targeting.Calendar

/-- The seven days of the week, Sunday first. -/
inductive Weekday where
  | sunday | monday | tuesday | wednesday | thursday | friday | saturday
  deriving Repr, DecidableEq

namespace Weekday

/-- All days, Sunday first. -/
def all : List Weekday :=
  [sunday, monday, tuesday, wednesday, thursday, friday, saturday]

/-- English name. -/
def name : Weekday → String
  | sunday => "Sunday"
  | monday => "Monday"
  | tuesday => "Tuesday"
  | wednesday => "Wednesday"
  | thursday => "Thursday"
  | friday => "Friday"
  | saturday => "Saturday"

/-- The first three letters of the name. -/
def shortName (d : Weekday) : String :=
  String.ofList (d.name.toList.take 3)

/-- Days since the last Sunday. -/
def fromSunday : Weekday → Nat
  | sunday => 0
  | monday => 1
  | tuesday => 2
  | wednesday => 3
  | thursday => 4
  | friday => 5
  | saturday => 6

/-- Days since the last Monday. -/
def fromMonday (d : Weekday) : Nat :=
  (d.fromSunday + 6) % 7

/-- The weekday a number of days after a Sunday. -/
def ofSunday (n : Nat) : Weekday :=
  match n % 7 with
  | 0 => sunday
  | 1 => monday
  | 2 => tuesday
  | 3 => wednesday
  | 4 => thursday
  | 5 => friday
  | _ => saturday

end Weekday

/-- English names of the months, January first. -/
def monthNames : List String :=
  ["January", "February", "March", "April", "May", "June", "July", "August", "September",
    "October", "November", "December"]

/-- English name of a month numbered from 1. -/
def monthName (month : Nat) : String :=
  monthNames[month - 1]?.getD ""

/-- Whether February has 29 days in this year. -/
def isLeapYear (year : Int) : Bool :=
  year % 4 = 0 && (year % 100 ≠ 0 || year % 400 = 0)

/-- Days of a month numbered from 1. -/
def daysInMonth (year : Int) (month : Nat) : Nat :=
  match month with
  | 2 => if isLeapYear year then 29 else 28
  | 4 | 6 | 9 | 11 => 30
  | _ => 31

/-- Days of a year. -/
def daysInYear (year : Int) : Nat :=
  if isLeapYear year then 366 else 365

/-- A date as its number of days since 1970-01-01. -/
structure Date where
  dayNumber : Int
  deriving Repr, DecidableEq

namespace Date

/-- The years a date may lie in. -/
def minYear : Int := -262143
def maxYear : Int := 262142

/-- The date of a year, a month and a day, which need not exist: days beyond the end of a
month run into the next one. -/
def ofCivil (year : Int) (month day : Nat) : Date :=
  let march : Int := if month ≤ 2 then month + 9 else month - 3
  let y := if month ≤ 2 then year - 1 else year
  let era := y / 400
  let yearOfEra := y % 400
  let dayOfYear := (153 * march + 2) / 5 + day - 1
  let dayOfEra := yearOfEra * 365 + yearOfEra / 4 - yearOfEra / 100 + dayOfYear
  ⟨era * 146097 + dayOfEra - 719468⟩

/-- Day within the 400 years that repeat, counted from a first of March. -/
private def dayOfEra (d : Date) : Int := (d.dayNumber + 719468) % 146097

private def yearOfEra (d : Date) : Int :=
  let doe := d.dayOfEra
  (doe - doe / 1460 + doe / 36524 - doe / 146096) / 365

private def dayOfMarchYear (d : Date) : Int :=
  d.dayOfEra - (365 * d.yearOfEra + d.yearOfEra / 4 - d.yearOfEra / 100)

/-- Months since March. -/
private def marchMonth (d : Date) : Int := (5 * d.dayOfMarchYear + 2) / 153

/-- Month of the year, from 1. -/
def month (d : Date) : Nat :=
  (if d.marchMonth < 10 then d.marchMonth + 3 else d.marchMonth - 9).toNat

/-- Day of the month, from 1. -/
def day (d : Date) : Nat :=
  (d.dayOfMarchYear - (153 * d.marchMonth + 2) / 5 + 1).toNat

/-- Year, astronomical: the year before 1 is 0. -/
def year (d : Date) : Int :=
  (d.dayNumber + 719468) / 146097 * 400 + d.yearOfEra + (if d.marchMonth < 10 then 0 else 1)

/-- First day of a year. -/
def newYear (year : Int) : Date := ofCivil year 1 1

/-- Move by a number of days. -/
def addDays (d : Date) (n : Int) : Date := ⟨d.dayNumber + n⟩

/-- Whether the year of the date is in the supported range. -/
def inRange (d : Date) : Bool :=
  (newYear minYear).dayNumber ≤ d.dayNumber && d.dayNumber < (newYear (maxYear + 1)).dayNumber

/-- The date of a year, a month and a day that exist. -/
def ofCivil? (year : Int) (month day : Nat) : Option Date :=
  if minYear ≤ year ∧ year ≤ maxYear ∧ 1 ≤ month ∧ month ≤ 12 ∧ 1 ≤ day ∧
      day ≤ daysInMonth year month then
    some (ofCivil year month day)
  else none

/-- Day of the year, from 1. -/
def ordinal (d : Date) : Nat :=
  (d.dayNumber - (newYear d.year).dayNumber + 1).toNat

/-- The date of a year and a day of that year. -/
def ofOrdinal? (year : Int) (ordinal : Nat) : Option Date :=
  if minYear ≤ year ∧ year ≤ maxYear ∧ 1 ≤ ordinal ∧ ordinal ≤ daysInYear year then
    some ((newYear year).addDays ((ordinal : Int) - 1))
  else none

/-- Day of the week; day 0 was a Thursday. -/
def weekday (d : Date) : Weekday :=
  Weekday.ofSunday ((d.dayNumber + 4) % 7).toNat

/-- Quarter of the year, from 1. -/
def quarter (d : Date) : Nat := (d.month + 2) / 3

/-- Weeks of the year that start on Sunday; days before the first Sunday are in week 0. -/
def weekFromSunday (d : Date) : Nat := (d.ordinal + 6 - d.weekday.fromSunday) / 7

/-- Weeks of the year that start on Monday; days before the first Monday are in week 0. -/
def weekFromMonday (d : Date) : Nat := (d.ordinal + 6 - d.weekday.fromMonday) / 7

/-- The Thursday of the same week, weeks starting on Monday. -/
def weekThursday (d : Date) : Date := d.addDays (3 - (d.weekday.fromMonday : Int))

/-- A numbered week belongs to the year of its Thursday. -/
def isoYear (d : Date) : Int := d.weekThursday.year

/-- Number of the week within its year, from 1. -/
def isoWeek (d : Date) : Nat := (d.weekThursday.ordinal - 1) / 7 + 1

/-- Number of numbered weeks of a year: the week of December 28 is always the last. -/
def isoWeeksOf (year : Int) : Nat := (ofCivil year 12 28).isoWeek

/-- The date of a numbered week and a weekday. -/
def ofIsoWeek? (year : Int) (week : Nat) (weekday : Weekday) : Option Date :=
  if minYear ≤ year ∧ year ≤ maxYear ∧ 1 ≤ week ∧ week ≤ isoWeeksOf year then
    let first := ofCivil year 1 4
    let monday := first.addDays (-(first.weekday.fromMonday : Int))
    let date := monday.addDays (7 * ((week : Int) - 1) + weekday.fromMonday)
    if date.inRange then some date else none
  else none

end Date

end Targeting.Calendar
