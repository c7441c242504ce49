/-
# Tables in the order of their names

A table by name has its entries in ascending order, so it is the list of its entries: setting them
one after the other, in order, puts each behind the ones before it. Setting an entry keeps the order
and changes no entry of another name.
-/

import Mathlib.Data.String.Basic
import Targeting.Text.NameSet

namespace Targeting.NameMap

variable {α : Type}

/-- The names of a table ascend, so none of them is there twice. -/
def IsSorted (table : List (String × α)) : Prop :=
  table.Pairwise fun first second => first.1 < second.1

/-- A name behind all others is set at the end. -/
theorem insert_eq_append {name : String} {entry : α} {table : List (String × α)}
    (h : ∀ other ∈ table, other.1 < name) : insert name entry table = table ++ [(name, entry)] := by
  induction table with
  | nil => rfl
  | cons first rest ih =>
      obtain ⟨hfirst, hrest⟩ := List.forall_mem_cons.1 h
      rw [insert, if_neg hfirst.asymm, if_neg hfirst.ne', ih hrest, List.cons_append]

theorem foldl_insert_eq_append {table entries : List (String × α)}
    (h : IsSorted (table ++ entries)) :
    entries.foldl (fun table (name, entry) => insert name entry table) table =
      table ++ entries := by
  induction entries generalizing table with
  | nil => rw [List.foldl_nil, List.append_nil]
  | cons first rest ih =>
      obtain ⟨name, entry⟩ := first
      have hlast : ∀ other ∈ table, other.1 < name := fun other hother =>
        (List.pairwise_append.1 h).2.2 other hother (name, entry) List.mem_cons_self
      rw [List.append_cons] at h
      simp only [List.foldl_cons, insert_eq_append hlast, ih h, ← List.append_cons]

/-- Setting the entries of a table gives the table back. -/
theorem ofList_eq_self {table : List (String × α)} (h : IsSorted table) : ofList table = table := by
  rw [← List.nil_append table] at h
  exact foldl_insert_eq_append h

/-- Setting a name changes its own entry only. -/
theorem mem_insert_iff {name other : String} {entry value : α} {table : List (String × α)}
    (h : IsSorted table) : (other, value) ∈ insert name entry table ↔
      if other = name then value = entry else (other, value) ∈ table := by
  induction table with
  | nil => simp [insert]
  | cons first rest ih =>
      obtain ⟨key, old⟩ := first
      obtain ⟨hfirst, hrest⟩ := List.pairwise_cons.1 h
      have hnot {later : String} (hlater : later ≤ key) : (later, value) ∉ rest :=
        fun hmem => (hfirst _ hmem).not_ge hlater
      rw [insert]
      obtain hlt | rfl | hgt := lt_trichotomy name key
      · rw [if_pos hlt]
        by_cases hother : other = name
        · subst hother
          simp [hlt.ne, hnot hlt.le]
        · simp [hother]
      · rw [if_neg (lt_irrefl _), if_pos rfl]
        by_cases hother : other = name
        · subst hother
          simp [hnot le_rfl]
        · simp [hother]
      · rw [if_neg hgt.asymm, if_neg hgt.ne', List.mem_cons, ih hrest]
        by_cases hother : other = name
        · subst hother
          simp [hgt.ne']
        · simp [hother]

theorem isSorted_insert {name : String} {entry : α} {table : List (String × α)}
    (h : IsSorted table) : IsSorted (insert name entry table) := by
  induction table with
  | nil => exact List.pairwise_singleton _ _
  | cons first rest ih =>
      obtain ⟨key, old⟩ := first
      obtain ⟨hfirst, hrest⟩ := List.pairwise_cons.1 h
      rw [insert]
      obtain hlt | rfl | hgt := lt_trichotomy name key
      · rw [if_pos hlt]
        refine List.pairwise_cons.2 ⟨List.forall_mem_cons.2 ⟨hlt, fun other hother => ?_⟩, h⟩
        exact hlt.trans (hfirst other hother)
      · rw [if_neg (lt_irrefl _), if_pos rfl]
        exact List.pairwise_cons.2 ⟨hfirst, hrest⟩
      · rw [if_neg hgt.asymm, if_neg hgt.ne']
        refine List.pairwise_cons.2 ⟨fun other hother => ?_, ih hrest⟩
        obtain ⟨other, value⟩ := other
        rw [mem_insert_iff hrest] at hother
        split at hother
        case isTrue heq => exact heq ▸ hgt
        case isFalse => exact hfirst _ hother

/-- The table of some entries is sorted, and has no others. -/
theorem isSorted_ofList (entries : List (String × α)) :
    IsSorted (ofList entries) ∧ ∀ entry ∈ ofList entries, entry ∈ entries := by
  refine List.foldlRecOn (motive := fun table => IsSorted table ∧ ∀ entry ∈ table, entry ∈ entries)
    entries _ ⟨.nil, nofun⟩ fun table ⟨hsorted, hmem⟩ entry hentry => ⟨isSorted_insert hsorted, ?_⟩
  rintro ⟨other, value⟩ hother
  rw [mem_insert_iff hsorted] at hother
  split at hother
  case isTrue heq =>
    subst heq hother
    exact hentry
  case isFalse => exact hmem _ hother

theorem nodup_of_isSorted {table : List (String × α)} (h : IsSorted table) :
    (table.map Prod.fst).Nodup :=
  List.pairwise_map.2 (h.imp fun hlt => hlt.ne)

end Targeting.NameMap
