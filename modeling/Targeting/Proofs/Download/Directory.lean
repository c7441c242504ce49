/-
# What a directory holds

An entry that is set is found again and nothing else is found differently; a file that is deleted
takes no other entry with it. Seen through a test of entries, an entry that passes is put among
those that pass, unless one is in its way that does not.
-/

import Targeting.Download.Directory

namespace Targeting.Download.Directory

variable {entries : List (String × Entry)} {d : Directory} {name other : String} {entry : Entry}
  {content : List UInt8} {test : String × Entry → Bool}

/-! ## Entries -/

theorem lookup_cons_of_ne (h : name ≠ other) :
    ((other, entry) :: entries).lookup name = entries.lookup name := by
  rw [List.lookup_cons, beq_eq_false_iff_ne.2 h]

theorem lookup_put_self : (put name entry entries).lookup name = some entry := by
  induction entries with
  | nil => exact List.lookup_cons_self
  | cons first rest ih =>
      obtain ⟨key, found⟩ := first
      rw [put]
      by_cases heq : key = name
      · rw [if_pos heq, heq, List.lookup_cons_self]
      · rw [if_neg heq, lookup_cons_of_ne (Ne.symm heq), ih]

theorem lookup_put_of_ne (h : other ≠ name) :
    (put name entry entries).lookup other = entries.lookup other := by
  induction entries with
  | nil => exact lookup_cons_of_ne h
  | cons first rest ih =>
      obtain ⟨key, found⟩ := first
      rw [put]
      by_cases heq : key = name
      · subst heq
        rw [if_pos rfl, lookup_cons_of_ne h, lookup_cons_of_ne h]
      · rw [if_neg heq, List.lookup_cons, List.lookup_cons, ih]

/-- A name whose entry passes the test is looked up among the entries that pass. -/
theorem lookup_filter (h : ∀ entry, entries.lookup name = some entry → test (name, entry)) :
    (entries.filter test).lookup name = entries.lookup name := by
  induction entries with
  | nil => rfl
  | cons first rest ih =>
      obtain ⟨key, found⟩ := first
      by_cases heq : name = key
      · subst heq
        rw [List.filter_cons_of_pos (h found List.lookup_cons_self), List.lookup_cons_self,
          List.lookup_cons_self]
      · rw [lookup_cons_of_ne heq] at h ⊢
        rw [List.filter_cons]
        split
        case isTrue => rw [lookup_cons_of_ne heq, ih h]
        case isFalse => exact ih h

/-- An entry that passes the test is put among the entries that pass. -/
theorem filter_put (h : ∀ old, entries.lookup name = some old → test (name, old))
    (hentry : test (name, entry)) :
    (put name entry entries).filter test = put name entry (entries.filter test) := by
  induction entries with
  | nil => rw [put, List.filter_cons_of_pos hentry, List.filter_nil, put]
  | cons first rest ih =>
      obtain ⟨key, found⟩ := first
      rw [put]
      by_cases heq : key = name
      · subst heq
        rw [if_pos rfl, List.filter_cons_of_pos hentry,
          List.filter_cons_of_pos (h found List.lookup_cons_self), put, if_pos rfl]
      · rw [lookup_cons_of_ne (Ne.symm heq)] at h
        rw [if_neg heq, List.filter_cons, List.filter_cons, ih h]
        split
        case isTrue => rw [put, if_neg heq]
        case isFalse => rfl

/-- An entry under a name that never passes the test does not show. -/
theorem filter_put_of_not (h : ∀ entry, ¬ test (name, entry)) :
    (put name entry entries).filter test = entries.filter test := by
  induction entries with
  | nil => rw [put, List.filter_cons_of_neg (h entry)]
  | cons first rest ih =>
      obtain ⟨key, found⟩ := first
      rw [put]
      by_cases heq : key = name
      · subst heq
        rw [if_pos rfl, List.filter_cons_of_neg (h entry), List.filter_cons_of_neg (h found)]
      · rw [if_neg heq, List.filter_cons, List.filter_cons, ih]

/-! ## Setting and deleting -/

theorem listing_set : (d.set name entry).listing = put name entry d.listing := rfl

theorem find?_set_self : (d.set name entry).find? name = some entry := lookup_put_self

theorem find?_set_of_ne (h : other ≠ name) : (d.set name entry).find? other = d.find? other :=
  lookup_put_of_ne h

theorem listing_delete (h : d.find? name = some (.file content)) :
    (d.delete name).listing = d.listing.filter fun entry => entry.1 != name := by
  rw [delete, h]
  obtain ⟨entries⟩ := d
  cases entries <;> rfl

/-- Whatever is deleted, all else stays. -/
theorem find?_delete_of_ne (hne : other ≠ name) : (d.delete name).find? other = d.find? other := by
  cases hfind : d.find? name with
  | none => rw [delete, hfind]
  | some entry =>
      cases entry with
      | file content =>
          rw [find?, listing_delete hfind]
          exact lookup_filter fun _ _ => bne_iff_ne.2 hne
      | folder => rw [delete, hfind]

theorem find?_delete_self (h : d.find? name = some (.file content)) :
    (d.delete name).find? name = none := by
  rw [find?, listing_delete h, List.lookup_eq_none_iff]
  intro entry hentry
  rw [bne_comm]
  exact (List.mem_filter.1 hentry).2

theorem read?_eq_some_iff : d.read? name = some content ↔ d.find? name = some (.file content) := by
  rw [read?]
  split
  case h_1 found hfind => rw [hfind, Option.some.injEq, Option.some.injEq, Entry.file.injEq]
  case h_2 hfind => exact ⟨nofun, fun h => absurd h (hfind content)⟩

/-! ## Putting in place -/

/-- What putting a file in place leaves behind. -/
def placed (d : Directory) (name : String) (content : List UInt8) : Directory :=
  (d.set temporary .folder).set name (.file content)

/-- A file is put in place if neither a file is where the temporary folder belongs nor a folder
where the file does. -/
theorem install_eq_placed (htemporary : ∀ content, d.find? temporary ≠ some (.file content))
    (hname : isFileName name) (hne : name ≠ temporary) (hfolder : d.find? name ≠ some .folder) :
    d.install name content = (true, d.placed name content) := by
  rw [install]
  split
  case h_1 found hfind => exact absurd hfind (htemporary found)
  case h_2 =>
    rw [if_neg (by rw [hname]; exact Bool.false_ne_true), find?_set_of_ne hne]
    split
    case h_1 hfind => exact absurd hfind hfolder
    case h_2 => rfl

/-- A file that is put in place is found there. -/
theorem find?_of_install (h : (d.install name content).1 = true) :
    (d.install name content).2.find? name = some (.file content) := by
  revert h
  rw [install]
  split
  case h_1 => exact nofun
  case h_2 =>
    dsimp only
    split
    case isTrue => exact nofun
    case isFalse =>
      split
      case h_1 => exact nofun
      case h_2 => exact fun _ => find?_set_self

/-- Putting a file in place concerns the file and the temporary folder, also if it fails. -/
theorem find?_install_of_ne (hne : other ≠ name) (htemporary : other ≠ temporary) :
    (d.install name content).2.find? other = d.find? other := by
  rw [install]
  split
  case h_1 => rfl
  case h_2 =>
    dsimp only
    split
    case isTrue => exact find?_set_of_ne htemporary
    case isFalse =>
      split
      case h_1 => exact find?_set_of_ne htemporary
      case h_2 => exact (find?_set_of_ne hne).trans (find?_set_of_ne htemporary)

end Targeting.Download.Directory
