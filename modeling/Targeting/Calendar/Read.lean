/-
# Reading dates

Reading follows the pieces of a pattern over a text and collects what each piece says about
the date. What is collected must be consistent and must determine a date: by month and day,
by the day of the year, or by a numbered week. Blanks in a pattern match any blanks, none
included, and numbers may be preceded by blanks.

A text can leave a date undetermined or contradict itself; only an undetermined date may be
completed from a count of seconds since 1970.
-/

import Targeting.Calendar.Pattern
import Targeting.Calendar.Zone
import Targeting.Number.Word

namespace Targeting.Calendar

/-- What a text says about a date. -/
structure Clues where
  year : Option Int := none
  century : Option Int := none
  yearOfCentury : Option Int := none
  isoYear : Option Int := none
  isoYearOfCentury : Option Int := none
  isoWeek : Option Nat := none
  quarter : Option Nat := none
  month : Option Nat := none
  day : Option Nat := none
  ordinal : Option Nat := none
  weekFromSunday : Option Nat := none
  weekFromMonday : Option Nat := none
  weekday : Option Weekday := none
  afternoon : Option Bool := none
  hourOfHalf : Option Nat := none
  minute : Option Nat := none
  second : Option Nat := none
  nanosecond : Option Nat := none
  timestamp : Option Int := none
  offset : Option Int := none
  deriving Repr, DecidableEq

namespace Read

/-- A clue that was given before may only be repeated. -/
def agree {α : Type} [DecidableEq α] (old : Option α) (new : α) : Option (Option α) :=
  match old with
  | none => some (some new)
  | some value => if value = new then some old else none

/-- A number as a natural number in a range. -/
def within (low high : Nat) (n : Int) : Option Nat :=
  if (low : Int) ≤ n ∧ n ≤ (high : Int) then some n.toNat else none

/-- Record a year of 32 bits. -/
def yearRange (n : Int) : Option Int :=
  if -2147483648 ≤ n ∧ n ≤ 2147483647 then some n else none

/-- Record an hour of the day as half and hour of the half. -/
def setHour (c : Clues) (hour : Nat) : Option Clues := do
  let afternoon ← agree c.afternoon (decide (12 ≤ hour))
  let hourOfHalf ← agree c.hourOfHalf (hour % 12)
  pure { c with afternoon, hourOfHalf }

/-- Record a number. -/
def setNumber (c : Clues) (field : Field) (n : Int) : Option Clues :=
  match field with
  | .year => do pure { c with year := ← agree c.year (← yearRange n) }
  | .century => do pure { c with century := ← agree c.century ((← within 0 2147483647 n) : Int) }
  | .yearOfCentury => do
    pure { c with yearOfCentury := ← agree c.yearOfCentury ((← within 0 99 n) : Int) }
  | .isoYear => do pure { c with isoYear := ← agree c.isoYear (← yearRange n) }
  | .isoYearOfCentury => do
    pure { c with isoYearOfCentury := ← agree c.isoYearOfCentury ((← within 0 99 n) : Int) }
  | .isoWeek => do pure { c with isoWeek := ← agree c.isoWeek (← within 1 53 n) }
  | .quarter => do pure { c with quarter := ← agree c.quarter (← within 1 4 n) }
  | .month => do pure { c with month := ← agree c.month (← within 1 12 n) }
  | .day => do pure { c with day := ← agree c.day (← within 1 31 n) }
  | .ordinal => do pure { c with ordinal := ← agree c.ordinal (← within 1 366 n) }
  | .weekFromSunday => do
    pure { c with weekFromSunday := ← agree c.weekFromSunday (← within 0 53 n) }
  | .weekFromMonday => do
    pure { c with weekFromMonday := ← agree c.weekFromMonday (← within 0 53 n) }
  | .weekdayFromSunday => do
    pure { c with weekday := ← agree c.weekday (Weekday.ofSunday (← within 0 6 n)) }
  | .weekdayFromMonday => do
    pure { c with weekday := ← agree c.weekday (Weekday.ofSunday (← within 1 7 n)) }
  | .hour => do setHour c (← within 0 23 n)
  | .hour12 => do pure { c with hourOfHalf := ← agree c.hourOfHalf ((← within 1 12 n) % 12) }
  | .minute => do pure { c with minute := ← agree c.minute (← within 0 59 n) }
  | .second => do pure { c with second := ← agree c.second (← within 0 60 n) }
  | .nanosecond => do pure { c with nanosecond := ← agree c.nanosecond (← within 0 999999999 n) }
  | .timestamp => do pure { c with timestamp := ← agree c.timestamp n }

/-- Most digits a number is read with; `none` is as many as there are. -/
def width : Field → Option Nat
  | .year | .isoYear => some 4
  | .quarter | .weekdayFromSunday | .weekdayFromMonday => some 1
  | .ordinal => some 3
  | .nanosecond => some 9
  | .timestamp => none
  | _ => some 2

/-- Read a run of digits, no more than allowed and at least `least`. -/
def digits (least : Nat) (most : Option Nat) (text : List Char) : Option (Int × List Char) :=
  let window := match most with
    | some n => text.take n
    | none => text
  let run := window.takeWhile Char.isDigit
  let value := Digits.accumulate 0 run
  if least ≤ run.length ∧ value < Nat.pow 2 63 then some (value, text.drop run.length) else none

/-- Read a number of the date. Years may carry a sign, and then have any number of digits. -/
def number (field : Field) (text : List Char) : Option (Int × List Char) :=
  let text := Blank.trimStart text
  if field = .year ∨ field = .isoYear then
    match text with
    | '-' :: rest => (digits 1 none rest).map fun (n, rest) => (-n, rest)
    | '+' :: rest => digits 1 none rest
    | _ => digits 1 (width field) text
  else digits 1 (width field) text

/-- Read one of some words, letters of either case, and return its position. -/
def word : List (List Char) → List Char → Option (Nat × List Char)
  | [], _ => none
  | candidate :: others, text =>
    if (text.take candidate.length).map Char.toLower = candidate then
      some (0, text.drop candidate.length)
    else (word others text).map fun (n, rest) => (n + 1, rest)

/-- Read the rest of a long name, if it is there. -/
def longEnding (name : String) (text : List Char) : List Char :=
  let ending := (name.toList.drop 3).map Char.toLower
  if (text.take ending.length).map Char.toLower = ending then text.drop ending.length else text

/-- Read a name by its first three letters and, for long names, the rest if it is there. -/
def name (names : List String) (long : Bool) (text : List Char) : Option (Nat × List Char) := do
  let (position, rest) ← word (names.map fun n => (n.toList.take 3).map Char.toLower) text
  let ending := names[position]?.getD ""
  pure (position, if long then longEnding ending rest else rest)

/-- Read the digits of a fraction: the first nine count, further ones are skipped. -/
def fraction (text : List Char) : Option (Nat × List Char) := do
  let (value, rest) ← digits 1 (some 9) text
  let used := text.length - rest.length
  pure (value.toNat * Nat.pow 10 (9 - used), rest.dropWhile Char.isDigit)

/-- Read a fixed number of digits of a fraction. -/
def fractionDigits (places : Nat) (text : List Char) : Option (Nat × List Char) := do
  let (value, rest) ← digits places (some places) text
  pure (value.toNat * Nat.pow 10 (9 - places), rest)

/-- Two digits and their value. -/
def twoDigits : List Char → Option (Nat × List Char)
  | a :: b :: rest =>
    if a.isDigit && b.isDigit then some (Digits.accumulate 0 [a, b], rest) else none
  | _ => none

/-- What may stand between the hours and minutes of an offset. -/
inductive Separator where
  /-- Exactly one colon. -/
  | oneColon
  /-- Any number of colons and blanks. -/
  | colonsAndBlanks

/-- Skip what separates hours from minutes. -/
def Separator.skip : Separator → List Char → Option (List Char)
  | .oneColon, ':' :: rest => some rest
  | .oneColon, _ => none
  | .colonsAndBlanks, text => some (text.dropWhile fun c => c = ':' || Blank.isUnicode c)

/-- Read an offset: a sign, two digits of hours, and minutes below sixty. -/
def offset (separator : Separator) (zulu missingMinutes : Bool) (text : List Char) :
    Option (Int × List Char) :=
  match zulu, text with
  | true, 'Z' :: rest | true, 'z' :: rest => some (0, rest)
  | _, sign :: rest =>
    if sign = '+' ∨ sign = '-' ∨ sign = '\u2212' then do
      let (hours, rest) ← twoDigits rest
      let rest ← separator.skip rest
      let (minutes, rest) ← (match rest with
        | [] => if missingMinutes then some (0, []) else none
        | _ => twoDigits rest)
      if minutes < 60 then
        let size : Int := (hours * 3600 + minutes * 60 : Nat)
        some (if sign = '+' then size else -size, rest)
      else none
    else none
  | _, [] => none

/-- Record the offset. -/
def setOffset (c : Clues) (seconds : Int) : Option Clues := do
  pure { c with offset := ← agree c.offset seconds }

/-- Record the fraction of the second. -/
def setNanosecond (c : Clues) (nanos : Nat) : Option Clues := do
  pure { c with nanosecond := ← agree c.nanosecond nanos }

/-- Read a number and record it. -/
def numberPiece (c : Clues) (field : Field) (text : List Char) : Option (Clues × List Char) := do
  let (n, rest) ← number field text
  pure (← setNumber c field n, rest)

/-- Skip one given character. -/
def skip (c : Char) : List Char → Option (List Char)
  | [] => none
  | first :: rest => if first = c then some rest else none

/-- Read date, time, fraction and offset in the lenient form: blanks before numbers, and `UTC`
or `Z` for an offset of zero. -/
def timestampText (c : Clues) (text : List Char) : Option (Clues × List Char) := do
  let (c, text) ← numberPiece c .year text
  let text ← skip '-' (Blank.trimStart text)
  let (c, text) ← numberPiece c .month text
  let text ← skip '-' (Blank.trimStart text)
  let (c, text) ← numberPiece c .day text
  let text ← (match text with
    | 't' :: rest | 'T' :: rest | ' ' :: rest => some rest
    | _ => none)
  let (c, text) ← numberPiece c .hour text
  let text ← skip ':' (Blank.trimStart text)
  let (c, text) ← numberPiece c .minute text
  let text ← skip ':' (Blank.trimStart text)
  let (c, text) ← numberPiece c .second text
  let (c, text) ← (match text with
    | '.' :: rest => do
      let (nanos, rest) ← fraction rest
      pure (← setNanosecond c nanos, rest)
    | _ => pure (c, text))
  let text := Blank.trimStart text
  if (text.take 3).map Char.toLower = ['u', 't', 'c'] then
    pure (← setOffset c 0, text.drop 3)
  else
    let (seconds, rest) ← offset .colonsAndBlanks true false text
    pure (← setOffset c seconds, rest)

/-- Read what a piece stands for. -/
def piece (c : Clues) (p : Piece) (text : List Char) : Option (Clues × List Char) :=
  match p with
  | .literal expected =>
    if text.take expected.length = expected then some (c, text.drop expected.length) else none
  | .space _ => some (c, Blank.trimStart text)
  | .number field _ => numberPiece c field text
  | .monthName long => do
    let (position, rest) ← name monthNames long text
    pure ({ c with month := ← agree c.month (position + 1) }, rest)
  | .weekdayName long => do
    let (position, rest) ← name (Weekday.all.map Weekday.name) long text
    pure ({ c with weekday := ← agree c.weekday (Weekday.ofSunday position) }, rest)
  | .meridiem _ => do
    let (position, rest) ← word [['a', 'm'], ['p', 'm']] text
    pure ({ c with afternoon := ← agree c.afternoon (position == 1) }, rest)
  | .fraction places =>
    match text with
    | '.' :: rest => do
      let (nanos, rest) ← (match places with
        | none => fraction rest
        | some n => fractionDigits n rest)
      pure (← setNanosecond c nanos, rest)
    | _ => some (c, text)
  | .fractionDigits places => do
    let (nanos, rest) ← fractionDigits places text
    pure (← setNanosecond c nanos, rest)
  | .zoneName => some (c, text.dropWhile fun x => !Blank.isUnicode x)
  | .offset _ => do
    let (seconds, rest) ← offset .colonsAndBlanks false false (Blank.trimStart text)
    pure (← setOffset c seconds, rest)
  | .anyOffset => do
    let (seconds, rest) ← offset .colonsAndBlanks true true (Blank.trimStart text)
    pure (← setOffset c seconds, rest)
  | .timestampText => timestampText c text

/-- Read all pieces; nothing may be left over. -/
def pieces (c : Clues) : List Piece → List Char → Option Clues
  | [], [] => some c
  | [], _ :: _ => none
  | first :: rest, text => do
    let (c, text) ← piece c first text
    pieces c rest text

end Read

/-- Why clues give no date: more would be needed, or they exclude one another. -/
inductive Unresolved where
  | undetermined
  | impossible
  deriving Repr, DecidableEq

namespace Clues

/-- A year from its full form, its century and its last two digits. Two digits alone stand for
1970 to 2069. -/
def fullYear (year century lastTwo : Option Int) : Except Unresolved (Option Int) :=
  match year, century, lastTwo with
  | year, none, none => .ok year
  | some y, century, lastTwo =>
    if y < 0 then .error .impossible
    else if century.getD (y / 100) = y / 100 ∧ lastTwo.getD (y % 100) = y % 100 then .ok (some y)
    else .error .impossible
  | none, some c, some r =>
    if c * 100 + r ≤ 2147483647 then .ok (some (c * 100 + r)) else .error .impossible
  | none, none, some r => .ok (some (r + if r < 70 then 2000 else 1900))
  | none, some _, none => .error .undetermined

/-- Whether a clue, if given, is this value. -/
def matches? {α : Type} [DecidableEq α] (clue : Option α) (value : α) : Bool :=
  match clue with
  | none => true
  | some given => given = value

/-- Whether a clue about a part of a year, if given, is this value; a year before 0 has no such
parts. -/
def matchesPart (clue : Option Int) (year value : Int) : Bool :=
  match clue with
  | none => true
  | some given => 0 ≤ year && given = value

/-- Whether a date agrees with the clues about year, month and day. -/
def agreesCivil (c : Clues) (d : Date) : Bool :=
  matches? c.year d.year && matchesPart c.century d.year (d.year / 100) &&
    matchesPart c.yearOfCentury d.year (d.year % 100) && matches? c.month d.month &&
    matches? c.day d.day

/-- Whether a date agrees with the clues about its numbered week. -/
def agreesIsoWeek (c : Clues) (d : Date) : Bool :=
  matches? c.isoYear d.isoYear && matchesPart c.isoYearOfCentury d.isoYear (d.isoYear % 100) &&
    matches? c.isoWeek d.isoWeek && matches? c.weekday d.weekday

/-- Whether a date agrees with the clues about the day of the year and its weeks. -/
def agreesOrdinal (c : Clues) (d : Date) : Bool :=
  matches? c.ordinal d.ordinal && matches? c.weekFromSunday d.weekFromSunday &&
    matches? c.weekFromMonday d.weekFromMonday

/-- The date of a week counted within a year from the first given weekday. -/
def weekDate (year : Int) (week fromStart startOfWeek : Nat) : Except Unresolved Date :=
  match Date.ofOrdinal? year 1 with
  | none => .error .impossible
  | some first =>
    let shift := (startOfWeek + 7 - first.weekday.fromSunday) % 7
    let ordinal : Int := 1 + shift + ((week : Int) - 1) * 7 + fromStart
    match if 0 < ordinal then Date.ofOrdinal? year ordinal.toNat else none with
    | none => .error .impossible
    | some date => .ok date

/-- The date that the clues determine. -/
def date (c : Clues) : Except Unresolved Date := do
  let year ← fullYear c.year c.century c.yearOfCentury
  let isoYear ← fullYear c.isoYear none c.isoYearOfCentury
  let found := fun (date : Option Date) => match date with
    | none => Except.error Unresolved.impossible
    | some date => .ok date
  let (agreed, date) ← match year, c.month, c.day, c.ordinal, c.weekday with
    | some y, some m, some d, _, _ => do
      let date ← found (Date.ofCivil? y m d)
      pure (c.agreesIsoWeek date && c.agreesOrdinal date, date)
    | some y, _, _, some n, _ => do
      let date ← found (Date.ofOrdinal? y n)
      pure (c.agreesCivil date && c.agreesIsoWeek date && c.agreesOrdinal date, date)
    | year, _, _, _, some weekday =>
      match year, c.weekFromSunday, c.weekFromMonday, isoYear, c.isoWeek with
      | some y, some week, _, _, _ => do
        let date ← weekDate y week weekday.fromSunday 0
        pure (c.agreesCivil date && c.agreesIsoWeek date && c.agreesOrdinal date, date)
      | some y, none, some week, _, _ => do
        let date ← weekDate y week weekday.fromMonday 1
        pure (c.agreesCivil date && c.agreesIsoWeek date && c.agreesOrdinal date, date)
      | _, _, _, some y, some week => do
        let date ← found (Date.ofIsoWeek? y week weekday)
        pure (c.agreesCivil date && c.agreesOrdinal date, date)
      | _, _, _, _, _ => .error .undetermined
    | _, _, _, _, _ => .error .undetermined
  if matches? c.quarter date.quarter && agreed then .ok date else .error .impossible

/-- The second of the day and the nanoseconds that the clues determine. The second may be left
out, but a fraction needs one. The sixtieth second of a minute is a leap second. -/
def timeOfDay (c : Clues) : Except Unresolved (Nat × Nat) :=
  match c.afternoon, c.hourOfHalf, c.minute with
  | some afternoon, some hour, some minute =>
    let start := ((if afternoon then 12 else 0) + hour) * 3600 + minute * 60
    match c.second, c.nanosecond with
    | none, some _ => .error .undetermined
    | none, none => .ok (start, 0)
    | some second, nanos =>
      if second = 60 then .ok (start + 59, 1000000000 + nanos.getD 0)
      else .ok (start + second, nanos.getD 0)
  | _, _, _ => .error .undetermined

/-- The wall time of clues that determine a date and a time of day. A count of seconds, if
given, has to agree; it may count a leap second as the next one. -/
def checkedWall (c : Clues) (offset : Int) (date : Date) (second nanos : Nat) :
    Option WallTime :=
  let wall := WallTime.ofDate date second nanos
  match c.timestamp with
  | none => some wall
  | some given =>
    let counted := wall.seconds - offset
    if given = counted ∨ (1000000000 ≤ nanos ∧ given = counted + 1) then some wall else none

/-- Complete undetermined clues from the count of seconds. -/
def completed (c : Clues) (timestamp offset : Int) : Option WallTime := do
  let seconds := timestamp + offset
  let _ ← Word.ofInt? seconds
  let instant ← Instant.ofSeconds? seconds
  let wall : WallTime := ⟨instant.seconds, 0⟩
  let wall ← if c.second = some 60 then
      (match wall.second with
        | 59 => some wall
        | 0 => some ⟨wall.seconds - 1, 0⟩
        | _ => none)
    else some wall
  let c ← if c.second = some 60 then some c else do
    pure { c with second := ← Read.agree c.second wall.second }
  let c ← Read.setNumber c .year wall.date.year
  let c ← Read.setNumber c .ordinal wall.date.ordinal
  let c ← Read.setHour c wall.hour
  let c ← Read.setNumber c .minute wall.minute
  match c.date, c.timeOfDay with
  | .ok date, .ok (second, nanos) => some (WallTime.ofDate date second nanos)
  | _, _ => none

/-- The wall time that the clues determine on a clock with the given offset. -/
def wall? (c : Clues) (offset : Int) : Option WallTime :=
  match c.date, c.timeOfDay, c.timestamp with
  | .ok date, .ok (second, nanos), _ => c.checkedWall offset date second nanos
  | .error .impossible, _, _ | _, .error .impossible, _ => none
  | _, _, some timestamp => c.completed timestamp offset
  | _, _, none => none

/-- The instant of clues that name an offset, or count seconds and so need none. -/
def instant? (c : Clues) : Option Instant := do
  let offset ← match c.offset, c.timestamp with
    | some offset, _ => some offset
    | none, some _ => some 0
    | none, none => none
  let wall ← c.wall? offset
  if -86400 < offset ∧ offset < 86400 then wall.instantAt? offset else none

end Clues

/-- The clues a text gives, read along a pattern. -/
def Clues.read? (pattern : List Piece) (text : String) : Option Clues :=
  Read.pieces {} pattern text.toList

namespace Read

/-- Digits of exactly the given number. -/
def exactly (n : Nat) (text : List Char) : Option (Int × List Char) := digits n (some n) text

/-- Read a date and time in the strict form: every number in full width, a `T`, `t` or blank
between date and time, and an offset below one day with a colon, or `Z`. -/
def strictTimestamp (text : List Char) : Option Clues := do
  let (year, text) ← exactly 4 text
  let c ← setNumber {} .year year
  let (month, text) ← exactly 2 (← skip '-' text)
  let c ← setNumber c .month month
  let (day, text) ← exactly 2 (← skip '-' text)
  let c ← setNumber c .day day
  let text ← (match text with
    | 't' :: rest | 'T' :: rest | ' ' :: rest => some rest
    | _ => none)
  let (hour, text) ← exactly 2 text
  let c ← setNumber c .hour hour
  let (minute, text) ← exactly 2 (← skip ':' text)
  let c ← setNumber c .minute minute
  let (second, text) ← exactly 2 (← skip ':' text)
  let c ← setNumber c .second second
  let (c, text) ← (match text with
    | '.' :: rest => do
      let (nanos, rest) ← fraction rest
      pure (← setNanosecond c nanos, rest)
    | _ => pure (c, text))
  let (seconds, rest) ← offset .oneColon true false text
  if rest = [] ∧ -86400 < seconds ∧ seconds < 86400 then setOffset c seconds else none

end Read

/-- The instant of a timestamp in the strict form. -/
def Instant.parse? (text : String) : Option Instant := do
  let clues ← Read.strictTimestamp text.toList
  clues.instant?

end Targeting.Calendar
