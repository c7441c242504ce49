/-
# Records in JSON

Data with fixed fields is written as an object with the names of the fields or as an array
with the fields in order. In an object unknown names are passed over and no field may occur
twice; an array may leave out fields at its end as far as they have a default.
-/

import Targeting.Json.Written

namespace Targeting.Json

namespace Written

/-- The members with known names, in order; nothing if a name is no text or a known name occurs
twice. -/
def knownMembers (names : List String) :
    List (Option String × Written) → Option (List (String × Written))
  | [] => some []
  | (none, _) :: _ => none
  | (some name, found) :: rest => do
    let others ← knownMembers names rest
    if names.contains name then
      if (others.lookup name).isSome then none else some ((name, found) :: others)
    else some others

/-- The fields of a record that are there, by name. `required` is the number of fields that an
array has to have. -/
def record? (names : List String) (required : Nat) : Written → Option (List (String × Written))
  | object members => knownMembers names members
  | array items =>
    if required ≤ items.length ∧ items.length ≤ names.length then some (names.zip items) else none
  | _ => none

/-- The names and entries of members. -/
def entries? {α : Type} (read : Written → Option α) :
    List (Option String × Written) → Option (List (String × α))
  | [] => some []
  | (name, first) :: rest => do
    let name ← name
    let entry ← read first
    let entries ← entries? read rest
    some ((name, entry) :: entries)

/-- The entries of a table, by name; of entries with the same name the last one counts. -/
def table? {α : Type} (read : Written → Option α) : Written → Option (List (String × α))
  | object members => (entries? read members).map NameMap.ofList
  | _ => none

/-- A text. -/
def text? : Written → Option String
  | text s => s
  | _ => none

/-- An integer in the range of words. -/
def int? : Written → Option Int64
  | number (some n) => n.int?
  | _ => none

/-- A number. -/
def float? : Written → Option Float
  | number (some n) => some n.toFloat
  | _ => none

/-- A list. -/
def list? {α : Type} (read : Written → Option α) : Written → Option (List α)
  | array items => items.mapM read
  | _ => none

/-- A value or null. -/
def orNull? {α : Type} (read : Written → Option α) : Written → Option (Option α)
  | null => some none
  | found => (read found).map some

end Written

/-- Read a field, or take its default. -/
def field {α : Type} (fields : List (String × Written)) (name : String) (default : α)
    (read : Written → Option α) : Option α :=
  match fields.lookup name with
  | none => some default
  | some found => read found

/-- Read a field that may be missing or null. -/
def optional {α : Type} (fields : List (String × Written)) (name : String)
    (read : Written → Option α) : Option (Option α) :=
  field fields name none (Written.orNull? read)

end Targeting.Json
