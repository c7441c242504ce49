/-
# Values in columns

A row of the table of samples has four columns for a value: for text, for integers, for real
numbers, and for numbers of any kind. A value stands in one of them and the others are empty. A code
in the row says of which kind the value is, since times are kept as integers too, and truth as the
numbers zero and one.

A column does not keep everything. What is not a number leaves its column empty, and zero has no
sign.
-/

import Targeting.Property.Value

namespace Targeting

open Calendar (Instant)

/-- Code of a kind of values. -/
def PropertyKind.code : PropertyKind → Nat
  | text => 1
  | int => 2
  | float => 3
  | bool => 4
  | timestamp => 5

/-- The columns of a row that can hold a value. -/
structure Cells where
  text : Option String := none
  int : Option Int64 := none
  real : Option Float := none
  numeric : Option Int64 := none
  deriving Repr, DecidableEq

namespace Cells

/-- A real number as its column keeps it. -/
def storedReal? (x : Float) : Option Float :=
  if x.isNaN then none else if x == 0 then some 0 else some x

/-- Truth as a number. -/
def ofBool (b : Bool) : Int64 := if b then 1 else 0

/-- A time as a number of microseconds. -/
def ofInstant (t : Instant) : Int64 := Int64.ofInt t.micros

/-- A value, written into its column. -/
def ofValue : PropertyValue → Cells
  | .text s => { text := some s }
  | .int i => { int := some i }
  | .float x => { real := storedReal? x }
  | .bool b => { numeric := some (ofBool b) }
  | .timestamp t => { int := some (ofInstant t) }

/-- The value of a row with a code, read from the column of its kind. -/
def value? (cells : Cells) : (code : Nat) → Option PropertyValue
  | 1 => cells.text.map .text
  | 2 => cells.int.map .int
  | 3 => cells.real.map .float
  | 4 => cells.numeric.map fun n => .bool (n != 0)
  | 5 => (cells.int.bind fun i => Instant.ofMicros? i.toInt).map .timestamp
  | _ => none

/-- Whether the column of a value holds it. An empty column holds nothing. -/
def holds (cells : Cells) : PropertyValue → Bool
  | .text s => cells.text.any (· == s)
  | .int i => cells.int.any (· == i)
  | .float x => cells.real.any (· == x)
  | .bool b => cells.numeric.any (· == ofBool b)
  | .timestamp t => cells.int.any (· == ofInstant t)

end Cells

end Targeting
