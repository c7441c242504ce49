/-
# Date patterns

A date pattern is a text with directives: a percent sign, an optional padding mark and a
letter. Reading a pattern gives the list of its pieces, which both printing and reading of
dates follow. Some directives abbreviate several pieces. Only a directive for a single number
may carry a padding mark.
-/

import Targeting.Text.Blank

namespace Targeting.Calendar

/-- Numbers that a date can be written with. -/
inductive Field where
  | year | century | yearOfCentury
  | isoYear | isoYearOfCentury | isoWeek
  | quarter | month | day | ordinal
  | weekFromSunday | weekFromMonday
  | weekdayFromSunday | weekdayFromMonday
  | hour | hour12 | minute | second | nanosecond
  | timestamp
  deriving Repr, DecidableEq

/-- How a number shorter than its width is filled up. -/
inductive Padding where
  | none | zero | space
  deriving Repr, DecidableEq

/-- How an offset from UTC is written. -/
inductive OffsetStyle where
  /-- `+hhmm` -/
  | plain
  /-- `+hh:mm` -/
  | colon
  /-- `+hh:mm:ss` -/
  | seconds
  /-- `+hh` -/
  | hours
  deriving Repr, DecidableEq

/-- One piece of a date pattern. -/
inductive Piece where
  | literal (text : List Char)
  | space (text : List Char)
  | number (field : Field) (padding : Padding)
  | monthName (long : Bool)
  | weekdayName (long : Bool)
  | meridiem (lower : Bool)
  /-- A point and the fraction of the second, as many digits as it needs or a fixed number. -/
  | fraction (places : Option Nat)
  /-- A fixed number of digits of the fraction, without a point. -/
  | fractionDigits (places : Nat)
  | zoneName
  | offset (style : OffsetStyle)
  /-- An offset that is read leniently and cannot be written. -/
  | anyOffset
  /-- Date, time, fraction and offset with a `T` between date and time. -/
  | timestampText
  deriving Repr, DecidableEq

namespace Pattern

/-- The pieces that a directive letter stands for. -/
def directive : Char → Option (List Piece)
  | 'A' => some [.weekdayName true]
  | 'B' => some [.monthName true]
  | 'C' => some [.number .century .zero]
  | 'D' | 'x' => some [.number .month .zero, .literal ['/'], .number .day .zero, .literal ['/'],
      .number .yearOfCentury .zero]
  | 'F' => some [.number .year .zero, .literal ['-'], .number .month .zero, .literal ['-'],
      .number .day .zero]
  | 'G' => some [.number .isoYear .zero]
  | 'H' => some [.number .hour .zero]
  | 'I' => some [.number .hour12 .zero]
  | 'M' => some [.number .minute .zero]
  | 'P' => some [.meridiem true]
  | 'R' => some [.number .hour .zero, .literal [':'], .number .minute .zero]
  | 'S' => some [.number .second .zero]
  | 'T' | 'X' => some [.number .hour .zero, .literal [':'], .number .minute .zero, .literal [':'],
      .number .second .zero]
  | 'U' => some [.number .weekFromSunday .zero]
  | 'V' => some [.number .isoWeek .zero]
  | 'W' => some [.number .weekFromMonday .zero]
  | 'Y' => some [.number .year .zero]
  | 'Z' => some [.zoneName]
  | 'a' => some [.weekdayName false]
  | 'b' | 'h' => some [.monthName false]
  | 'c' => some [.weekdayName false, .space [' '], .monthName false, .space [' '],
      .number .day .space, .space [' '], .number .hour .zero, .literal [':'],
      .number .minute .zero, .literal [':'], .number .second .zero, .space [' '],
      .number .year .zero]
  | 'd' => some [.number .day .zero]
  | 'e' => some [.number .day .space]
  | 'f' => some [.number .nanosecond .zero]
  | 'g' => some [.number .isoYearOfCentury .zero]
  | 'j' => some [.number .ordinal .zero]
  | 'k' => some [.number .hour .space]
  | 'l' => some [.number .hour12 .space]
  | 'm' => some [.number .month .zero]
  | 'n' => some [.space ['\n']]
  | 'p' => some [.meridiem false]
  | 'q' => some [.number .quarter .none]
  | 'r' => some [.number .hour12 .zero, .literal [':'], .number .minute .zero, .literal [':'],
      .number .second .zero, .space [' '], .meridiem false]
  | 's' => some [.number .timestamp .none]
  | 't' => some [.space ['\t']]
  | 'u' => some [.number .weekdayFromMonday .none]
  | 'v' => some [.number .day .space, .literal ['-'], .monthName false, .literal ['-'],
      .number .year .zero]
  | 'w' => some [.number .weekdayFromSunday .none]
  | 'y' => some [.number .yearOfCentury .zero]
  | 'z' => some [.offset .plain]
  | '+' => some [.timestampText]
  | '%' => some [.literal ['%']]
  | _ => none

/-- Digits of a fraction that may be asked for by number. -/
def places : Char → Option Nat
  | '3' => some 3
  | '6' => some 6
  | '9' => some 9
  | _ => none

/-- The directive after a percent sign, padding marks aside, and how many characters it has. -/
def unpadded : List Char → Option (List Piece × Nat)
  | ':' :: ':' :: ':' :: 'z' :: _ => some ([.offset .hours], 4)
  | ':' :: ':' :: 'z' :: _ => some ([.offset .seconds], 3)
  | ':' :: 'z' :: _ => some ([.offset .colon], 2)
  | '.' :: 'f' :: _ => some ([.fraction none], 2)
  | '.' :: digit :: 'f' :: _ => (places digit).map fun n => ([.fraction (some n)], 3)
  | '#' :: 'z' :: _ => some ([.anyOffset], 2)
  | '3' :: 'f' :: _ => some ([.fractionDigits 3], 2)
  | '6' :: 'f' :: _ => some ([.fractionDigits 6], 2)
  | '9' :: 'f' :: _ => some ([.fractionDigits 9], 2)
  | letter :: _ => (directive letter).map fun pieces => (pieces, 1)
  | [] => none

/-- The padding that a mark asks for. -/
def padding : Char → Option Padding
  | '-' => some .none
  | '0' => some .zero
  | '_' => some .space
  | _ => none

/-- The directive after a percent sign and how many characters it has. -/
def specifier : List Char → Option (List Piece × Nat)
  | [] => none
  | mark :: rest =>
    match padding mark with
    | none => unpadded (mark :: rest)
    | some pad =>
      match unpadded rest with
      | some ([.number field _], width) => some ([.number field pad], width + 1)
      | _ => none

/-- Put a character in front of pieces: blanks and other characters each form runs. -/
def prepend (c : Char) (pieces : List Piece) : List Piece :=
  match Blank.isUnicode c, pieces with
  | true, .space text :: rest => .space (c :: text) :: rest
  | true, rest => .space [c] :: rest
  | false, .literal text :: rest => .literal (c :: text) :: rest
  | false, rest => .literal [c] :: rest

/-- The pieces of a pattern, after `skip` characters that belong to the directive before; absent
if a directive is malformed. -/
def scan : Nat → List Char → Option (List Piece)
  | _, [] => some []
  | skip + 1, _ :: rest => scan skip rest
  | 0, '%' :: rest =>
    match specifier rest with
    | some (pieces, width) => (scan width rest).map (pieces ++ ·)
    | none => none
  | 0, c :: rest => (scan 0 rest).map (prepend c)

/-- The pieces of a date pattern; absent if a directive is malformed. -/
def parse? (pattern : String) : Option (List Piece) :=
  scan 0 pattern.toList

end Pattern

end Targeting.Calendar
