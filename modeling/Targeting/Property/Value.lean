/-
# Property values

Facts about the device, the app and the user are properties. A property has one of five kinds
for its whole life; values of different kinds are never equal, even if they are written alike.
-/

import Targeting.Calendar.Zone
import Targeting.Json.Record

namespace Targeting

/-- The kind a property is declared with. -/
inductive PropertyKind where
  | text | int | float | bool | timestamp
  deriving Repr, DecidableEq

/-- Name of a kind as it appears in messages. -/
def PropertyKind.name : PropertyKind → String
  | text => "string"
  | int => "int"
  | float => "float"
  | bool => "bool"
  | timestamp => "timestamp"

/-- Value of a property. -/
inductive PropertyValue where
  | bool (b : Bool)
  | int (i : Int64)
  | float (x : Float)
  | text (s : String)
  | timestamp (t : Calendar.Instant)
  deriving Repr, DecidableEq

/-- Kind of a value. -/
def PropertyValue.kind : PropertyValue → PropertyKind
  | bool _ => .bool
  | int _ => .int
  | float _ => .float
  | text _ => .text
  | timestamp _ => .timestamp

/-- The value that a JSON text writes. An integer beyond the range of words becomes a number in
floating point; a time has no form of its own. -/
def PropertyValue.ofJson? : Json.Written → Option PropertyValue
  | .bool b => some (bool b)
  | .number (some n) =>
    match n.int? with
    | some i => some (int i)
    | none => some (float n.toFloat)
  | .text (some s) => some (text s)
  | _ => none

/-- When a property is recorded into history: at every start of the app, whenever a condition
reads it, whenever the app sets it, or never. -/
inductive Sampling where
  | appStart | onUse | onCustomSet | never
  deriving Repr, DecidableEq

end Targeting
