/-
# Sorted names

Sets of names and tables by name, kept in the order of the names. Names are compared by their
code points, which is also the order of their UTF-8 bytes.
-/

namespace Targeting

namespace NameSet

/-- Add a name to a sorted list without repetitions, unless it is there already. -/
def insert (name : String) : List String → List String
  | [] => [name]
  | first :: rest =>
    if name < first then name :: first :: rest
    else if name = first then first :: rest
    else first :: insert name rest

/-- The different names of a list, sorted. -/
def ofList (names : List String) : List String :=
  names.foldl (fun set name => insert name set) []

theorem mem_insert {name other : String} {set : List String} :
    other ∈ insert name set ↔ other = name ∨ other ∈ set := by
  induction set with
  | nil => rw [insert, List.mem_cons]
  | cons first rest ih =>
      rw [insert]
      split
      · rw [List.mem_cons]
      · split
        case isTrue hname => simp [hname]
        case isFalse => rw [List.mem_cons, ih, List.mem_cons, or_left_comm]

private theorem mem_foldl_insert {name : String} {names set : List String} :
    name ∈ names.foldl (fun set name => insert name set) set ↔ name ∈ names ∨ name ∈ set := by
  induction names generalizing set with
  | nil => simp
  | cons first rest ih =>
      rw [List.foldl_cons, ih, mem_insert, List.mem_cons, or_assoc, or_left_comm]

/-- The set holds the names of the list and no others. -/
theorem mem_ofList {name : String} {names : List String} :
    name ∈ ofList names ↔ name ∈ names := by
  rw [ofList, mem_foldl_insert]
  simp

end NameSet

namespace NameMap

/-- Set the entry of a name in a sorted table. -/
def insert {α : Type} (name : String) (entry : α) : List (String × α) → List (String × α)
  | [] => [(name, entry)]
  | (first, old) :: rest =>
    if name < first then (name, entry) :: (first, old) :: rest
    else if name = first then (name, entry) :: rest
    else (first, old) :: insert name entry rest

/-- A sorted table of all entries; of several entries of a name the last one counts. -/
def ofList {α : Type} (entries : List (String × α)) : List (String × α) :=
  entries.foldl (fun table (name, entry) => insert name entry table) []

end NameMap

end Targeting
