/-
# JSON values

Data without a fixed shape, kept as it was configured and handed on to the host. The members of
an object are sorted by name and have different names.
-/

import Targeting.Json.Number
import Targeting.Text.NameSet
import Targeting.Text.Quoted

namespace Targeting

/-- A JSON value. -/
inductive Json where
  | null
  | bool (b : Bool)
  | number (n : Json.Number)
  | text (s : String)
  | array (items : List Json)
  | object (members : List (String × Json))
  deriving Repr, Inhabited

namespace Json

mutual

/-- Whether two values are the same. -/
def same : Json → Json → Bool
  | null, null => true
  | bool a, bool b => a == b
  | number a, number b => a == b
  | text a, text b => a == b
  | array as, array bs => sameAll as bs
  | object as, object bs => sameMembers as bs
  | _, _ => false

/-- Whether two lists of values are the same. -/
def sameAll : List Json → List Json → Bool
  | [], [] => true
  | a :: as, b :: bs => same a b && sameAll as bs
  | _, _ => false

/-- Whether two lists of members are the same. -/
def sameMembers : List (String × Json) → List (String × Json) → Bool
  | [], [] => true
  | (m, a) :: as, (n, b) :: bs => m == n && same a b && sameMembers as bs
  | _, _ => false

end

instance : BEq Json := ⟨same⟩

/-- The member of an object by name. -/
def member? (name : String) : Json → Option Json
  | object members => members.lookup name
  | _ => none

/-- The value at a path of member names. -/
def at? : List String → Json → Option Json
  | [], value => some value
  | name :: path, value => (value.member? name).bind (at? path)

/-- The text of a text. -/
def text? : Json → Option String
  | text s => some s
  | _ => none

/-- The items of an array. -/
def items? : Json → Option (List Json)
  | array items => some items
  | _ => none

mutual

/-- JSON text of a value, without blanks. -/
def render : Json → String
  | null => "null"
  | bool b => if b then "true" else "false"
  | number n => n.render
  | text s => Text.Quoted.json s
  | array items => "[" ++ renderAll items ++ "]"
  | object members => "\x7b" ++ renderMembers members ++ "\x7d"

/-- JSON texts of values, with commas between them. -/
def renderAll : List Json → String
  | [] => ""
  | [only] => render only
  | first :: rest => render first ++ "," ++ renderAll rest

/-- JSON texts of members, with commas between them. -/
def renderMembers : List (String × Json) → String
  | [] => ""
  | [(name, value)] => Text.Quoted.json name ++ ":" ++ render value
  | (name, value) :: rest =>
    Text.Quoted.json name ++ ":" ++ render value ++ "," ++ renderMembers rest

end

end Json

end Targeting
