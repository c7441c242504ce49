/-
# Laws of the registry

A later entry of a name takes the place of an earlier one, and entries of different names do not
interfere, so registering what has been registered before, in the same order, leaves the same
registry as registering it once.
-/

import Mathlib.Order.Defs.LinearOrder
import Mathlib.Data.String.Basic
import Targeting.Property.Registry

namespace Targeting

namespace NameMap

variable {α : Type}

theorem insert_insert_self (name : String) (entry old : α) (table : List (String × α)) :
    insert name entry (insert name old table) = insert name entry table := by
  induction table with
  | nil => simp [insert]
  | cons first rest ih =>
      obtain ⟨other, value⟩ := first
      by_cases hlt : name < other
      · simp [insert, hlt]
      · by_cases heq : name = other
        · simp [insert, heq]
        · simp [insert, hlt, heq, ih]

/-- The entry of the smaller name stands first, whichever of them is set first. -/
theorem insert_comm_of_lt {name other : String} (h : name < other) (entry value : α)
    (table : List (String × α)) :
    insert name entry (insert other value table) =
      insert other value (insert name entry table) := by
  have hne : other ≠ name := h.ne'
  have hnot : ¬ other < name := h.asymm
  induction table with
  | nil => simp [insert, h, hne, hnot]
  | cons first rest ih =>
      obtain ⟨key, old⟩ := first
      obtain hlt | rfl | hgt := lt_trichotomy other key
      · simp [insert, hlt, h.trans hlt, h, hne, hnot]
      · simp [insert, h, hne, hnot]
      · obtain hlt | rfl | hgt' := lt_trichotomy name key
        · simp [insert, hlt, hne, hnot, hgt.asymm, hgt.ne']
        · simp [insert, hne, hnot]
        · simp [insert, hgt.asymm, hgt.ne', hgt'.asymm, hgt'.ne', ih]

theorem insert_comm {name other : String} (h : name ≠ other) (entry value : α)
    (table : List (String × α)) :
    insert name entry (insert other value table) =
      insert other value (insert name entry table) := by
  obtain hlt | hgt := lt_or_gt_of_ne h
  · exact insert_comm_of_lt hlt ..
  · exact (insert_comm_of_lt hgt ..).symm

theorem lookup_cons (key other : String) (entry : α) (table : List (String × α)) :
    ((key, entry) :: table).lookup other =
      if other = key then some entry else table.lookup other := by
  rw [List.lookup_cons]
  by_cases h : other = key
  · simp [h]
  · simp [beq_eq_false_iff_ne.2 h, h]

/-- Setting a name changes the entry of that name only. -/
theorem lookup_insert (name other : String) (entry : α) (table : List (String × α)) :
    (insert name entry table).lookup other =
      if other = name then some entry else table.lookup other := by
  induction table with
  | nil => simp [insert, lookup_cons]
  | cons first rest ih =>
      obtain ⟨key, old⟩ := first
      rw [insert]
      split
      case isTrue => rw [lookup_cons]
      case isFalse =>
        split
        case isTrue hkey =>
          subst hkey
          by_cases hother : other = name <;> simp [lookup_cons, hother]
        case isFalse hkey =>
          rw [lookup_cons, lookup_cons, ih]
          by_cases hother : other = name
          · subst hother
            simp [hkey]
          · simp [hother]

theorem lookup_filter_ne (name other : String) (table : List (String × α)) :
    (table.filter fun entry => entry.1 != name).lookup other =
      if other = name then none else table.lookup other := by
  induction table with
  | nil => simp
  | cons first rest ih =>
      obtain ⟨key, entry⟩ := first
      by_cases hkey : key = name
      · subst hkey
        rw [List.filter_cons_of_neg (by simp), lookup_cons, ih]
        by_cases hother : other = key <;> simp [hother]
      · rw [List.filter_cons_of_pos (by simpa using hkey), lookup_cons, lookup_cons, ih]
        by_cases hother : other = key
        · subst hother
          simp [hkey]
        · simp [hother]

end NameMap

namespace Registry

theorem provider?_put (r : Registry) (name other : String) (p : Provider) :
    (r.put name p).provider? other = if other = name then some p else r.provider? other :=
  NameMap.lookup_insert ..

theorem provider?_drop (r : Registry) (name other : String) :
    (r.drop name).provider? other = if other = name then none else r.provider? other :=
  NameMap.lookup_filter_ne ..

theorem put_put_self (r : Registry) (name : String) (p old : Provider) :
    (r.put name old).put name p = r.put name p :=
  congrArg Registry.mk (NameMap.insert_insert_self ..)

theorem put_comm (r : Registry) {name other : String} (h : name ≠ other) (p q : Provider) :
    (r.put name p).put other q = (r.put other q).put name p :=
  congrArg Registry.mk (NameMap.insert_comm h.symm ..)

/-- The members of the object that a text writes; there are none unless it writes one. -/
def membersOf (bytes : List UInt8) : List (String × Json) :=
  match Json.parse? bytes with
  | some (.object members) => members
  | _ => []

/-- Whatever the answer, the members have been set, except for those that fail. -/
theorem snd_setCustomJson (r : Registry) (bytes : List UInt8) :
    (r.setCustomJson bytes).2 = (r.setMembers (membersOf bytes)).2 := by
  rw [setCustomJson, membersOf]
  cases Json.parse? bytes with
  | none => rfl
  | some json =>
      cases json with
      | object members =>
          dsimp only
          rcases r.setMembers members with ⟨⟨_, _ | _⟩, r⟩ <;> rfl
      | null | bool _ | number _ | text _ | array _ => rfl

/-- A provider that is no text of a version is registered as it is, unless it is refused. -/
theorem register_of_versionText? {name : String} {p : Provider} (h : versionText? name p = none)
    (r : Registry) : r.register name p = match r.refusal? name p with
      | some error => (.error error, r)
      | none => (.ok (), r.put name p) := by
  cases hrefusal : r.refusal? name p with
  | some error => simp [register, hrefusal]
  | none => simp [register, hrefusal, h]

/-- A provider of the kind that the catalog has for the name is registered, and stays as it is
unless it is the text of a version. -/
theorem register_eq_put {r : Registry} {name : String} {p : Provider} (hname : name ≠ "")
    (hkind : Catalog.kindOf? name = some p.kind) (htext : versionText? name p = none) :
    r.register name p = (.ok (), r.put name p) := by
  have hrefusal : r.refusal? name p = none := by simp [refusal?, kind?, hname, hkind]
  rw [register_of_versionText? htext, hrefusal]

/-! ## Reading values -/

section Values

variable {r : Registry} {name : String} {v : PropertyValue} {σ : Type}

theorem value_of_fixed (h : r.provider? name = some (.fixed v)) (answers : PropertyAnswers σ)
    (s : σ) : r.value answers name s = (some v, s) := by
  rw [value, h]
  simp [PropertyAnswers.answer, Provider.kind]

theorem valuesOf_of_fixed {entries : List (String × PropertyValue)}
    (h : ∀ entry ∈ entries, r.provider? entry.1 = some (.fixed entry.2))
    (answers : PropertyAnswers σ) (s : σ) :
    r.valuesOf answers (entries.map Prod.fst) s = (entries, s) := by
  induction entries with
  | nil => rfl
  | cons entry rest ih =>
      obtain ⟨hfirst, hrest⟩ := List.forall_mem_cons.1 h
      rw [List.map_cons, valuesOf, value_of_fixed hfirst]
      dsimp only
      rw [ih hrest]

theorem valuesOf_of_none {names : List String} (h : ∀ name ∈ names, r.provider? name = none)
    (answers : PropertyAnswers σ) (s : σ) : r.valuesOf answers names s = ([], s) := by
  induction names with
  | nil => rfl
  | cons name rest ih =>
      obtain ⟨hfirst, hrest⟩ := List.forall_mem_cons.1 h
      rw [valuesOf, value, hfirst]
      dsimp only
      rw [ih hrest]

theorem valuesOf_append (r : Registry) (answers : PropertyAnswers σ) (names others : List String)
    (s : σ) :
    r.valuesOf answers (names ++ others) s =
      let first := r.valuesOf answers names s
      let second := r.valuesOf answers others first.2
      (first.1 ++ second.1, second.2) := by
  induction names generalizing s with
  | nil => rfl
  | cons name rest ih =>
      rw [List.cons_append, valuesOf, valuesOf]
      rcases r.value answers name s with ⟨_ | v, s'⟩ <;> simp only [ih, List.cons_append]

end Values

end Registry

end Targeting
