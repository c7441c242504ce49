/-
# Values of conditions

A condition computes with values: those of properties, nil for an absent one, times in
milliseconds since 1970, and lists. Equality as conditions see it compares numbers, times
among them, by the nearest floating-point numbers; all other values are equal only within
their type. Order is exact between integers and times, and by floating-point numbers
otherwise.
-/

import Targeting.Number.Text
import Targeting.Property.Value
import Targeting.Text.Quoted

namespace Targeting.Condition

/-- Types of values and of expressions. `unknown` is the type of an expression whose values may
be of any type; no value has it. -/
inductive Ty where
  | nil | bool | int | float | text | time | list | unknown
  deriving Repr, DecidableEq

/-- Name of a type as it appears in messages. -/
def Ty.name : Ty → String
  | nil => "nil"
  | bool => "bool"
  | int => "int"
  | float => "float"
  | text => "string"
  | time => "time"
  | list => "array"
  | unknown => "unknown"

/-- A value inside a condition. -/
inductive Value where
  | nil
  | bool (b : Bool)
  | int (i : Int64)
  | float (x : Float)
  | text (s : String)
  | time (millis : Int64)
  | list (items : List Value)
  deriving Repr, Inhabited

/-- A number, exact or approximate. -/
inductive Number where
  | exact (i : Int64)
  | approximate (x : Float)
  deriving Repr, DecidableEq

/-- The nearest floating-point number. -/
def Number.toFloat : Number → Float
  | exact i => Binary64.ofWord i
  | approximate x => x

/-- The order of two floating-point numbers; NaN is not comparable. -/
def compareFloats (a b : Float) : Option Ordering :=
  if a < b then some .lt else if b < a then some .gt else if a == b then some .eq else none

/-- The order of two numbers. -/
def Number.compare : Number → Number → Option Ordering
  | exact a, exact b => some (if a < b then .lt else if b < a then .gt else .eq)
  | a, b => compareFloats a.toFloat b.toFloat

namespace Value

/-- Type of a value. -/
def ty : Value → Ty
  | nil => .nil
  | bool _ => .bool
  | int _ => .int
  | float _ => .float
  | text _ => .text
  | time _ => .time
  | list _ => .list

/-- The value a condition sees for a property. -/
def ofProperty : PropertyValue → Value
  | .bool b => bool b
  | .int i => int i
  | .float x => float x
  | .text s => text s
  | .timestamp t => time (Int64.ofInt t.millis)

/-- The property value that a history lookup takes. Nil and lists have none, nor do times out
of range. -/
def toProperty? : Value → Option PropertyValue
  | bool b => some (.bool b)
  | int i => some (.int i)
  | float x => some (.float x)
  | text s => some (.text s)
  | time t => (Calendar.Instant.ofMillis? t.toInt).map .timestamp
  | nil | list _ => none

/-- The text of a text value. -/
def asText? : Value → Option String
  | text s => some s
  | _ => none

/-- The integer of an integer value. -/
def asInt? : Value → Option Int64
  | int i => some i
  | _ => none

/-- Milliseconds of a time; an integer counts as one. -/
def asMillis? : Value → Option Int64
  | time t => some t
  | int i => some i
  | _ => none

/-- The number of a numeric value; a time counts in milliseconds. -/
def asNumber? : Value → Option Number
  | int i => some (.exact i)
  | time t => some (.exact t)
  | float x => some (.approximate x)
  | _ => none

mutual

/-- Equality as conditions see it. -/
def looselyEquals : Value → Value → Bool
  | list as, list bs => allLooselyEqual as bs
  | nil, nil => true
  | bool a, bool b => a == b
  | text a, text b => a == b
  | a, b =>
    match a.asNumber?, b.asNumber? with
    | some a, some b => a.toFloat == b.toFloat
    | _, _ => false

/-- Equality of lists: the same length, and equal members in order. -/
def allLooselyEqual : List Value → List Value → Bool
  | [], [] => true
  | a :: as, b :: bs => looselyEquals a b && allLooselyEqual as bs
  | _, _ => false

end

/-- Order of texts, and of numbers; other values are not comparable. -/
def compare? (a b : Value) : Option Ordering :=
  match a, b with
  | text a, text b => some (if a < b then .lt else if b < a then .gt else .eq)
  | a, b =>
    match a.asNumber?, b.asNumber? with
    | some a, some b => a.compare b
    | _, _ => none

mutual

/-- Text of a value for people. -/
def display : Value → String
  | nil => "nil"
  | bool b => if b then "true" else "false"
  | int i => Word.render i
  | float x => NumberText.render NumberText.plain x
  | text s => Text.Quoted.display s
  | time t => "time(" ++ Word.render t ++ ")"
  | list items => "[" ++ displayAll ", " items ++ "]"

/-- Texts of values for people, with a separator between them. -/
def displayAll (separator : String) : List Value → String
  | [] => ""
  | [only] => display only
  | first :: rest => display first ++ separator ++ displayAll separator rest

end

mutual

/-- JSON text of a value. Times are plain numbers. -/
def json : Value → String
  | nil => "null"
  | bool b => if b then "true" else "false"
  | int i => Word.render i
  | float x => NumberText.render NumberText.json x
  | text s => Text.Quoted.json s
  | time t => Word.render t
  | list items => "[" ++ jsonAll items ++ "]"

/-- JSON texts of values, with commas between them. -/
def jsonAll : List Value → String
  | [] => ""
  | [only] => json only
  | first :: rest => json first ++ "," ++ jsonAll rest

end

end Value

end Targeting.Condition
