/-
# Changing fields

A change of some fields of a record, made in the text before it is read, is a change of
what is read. The record may be written as an object or as an array, so the change is
given for each name. Tables are records whose names are not fixed. The same holds for a
payload, which is read as a value first and as a record later.
-/

import Targeting.Json.Record

namespace Targeting

/-! ## Tables -/

namespace NameMap

variable {α β : Type} (g : String → α → β)

/-- Change the entries of a table; they keep their names. -/
def map (table : List (String × α)) : List (String × β) :=
  List.map (fun entry => (entry.1, g entry.1 entry.2)) table

@[simp]
theorem map_nil : map g [] = [] := rfl

@[simp]
theorem map_cons (entry : String × α) (table : List (String × α)) :
    map g (entry :: table) = (entry.1, g entry.1 entry.2) :: map g table := rfl

theorem map_fst_map (table : List (String × α)) :
    (map g table).map Prod.fst = table.map Prod.fst := by
  rw [map, List.map_map]
  rfl

theorem lookup_map (name : String) (table : List (String × α)) :
    (map g table).lookup name = (table.lookup name).map (g name) := by
  induction table with
  | nil => rfl
  | cons entry table ih =>
      obtain ⟨first, x⟩ := entry
      rw [map_cons, List.lookup_cons, List.lookup_cons]
      cases hname : name == first with
      | false => exact ih
      | true => rw [beq_iff_eq.1 hname, Option.map_some]

theorem map_insert (name : String) (x : α) (table : List (String × α)) :
    map g (insert name x table) = insert name (g name x) (map g table) := by
  induction table with
  | nil => rfl
  | cons entry table ih =>
      obtain ⟨first, old⟩ := entry
      rw [insert, map_cons, insert]
      split
      · rfl
      · split
        · rfl
        · rw [map_cons, ih]

theorem map_ofList (entries : List (String × α)) :
    map g (ofList entries) = ofList (map g entries) := by
  have hstep (table : List (String × α)) (entry : String × α) :
      insert entry.1 (g entry.1 entry.2) (map g table) = map g (insert entry.1 entry.2 table) :=
    (map_insert g entry.1 entry.2 table).symm
  exact (List.foldl_hom (map g) hstep).symm.trans List.foldl_map.symm

end NameMap

namespace Json

/-- Change the items of an array, which are the fields of the names. -/
def mapItems {α : Type} (g : String → α → α) : List String → List α → List α
  | name :: names, item :: items => g name item :: mapItems g names items
  | _, items => items

/-- Change the field of a name only. -/
def onField {α : Type} (name : String) (f : α → α) (other : String) (x : α) : α :=
  if other = name then f x else x

/-- Change the fields of a record in a text. -/
def Written.mapFields (names : List String) (g : String → Written → Written) : Written → Written
  | object members =>
    object (members.map fun (name, found) => (name, name.elim found fun name => g name found))
  | array items => array (mapItems g names items)
  | other => other

/-- Change the fields of a record in a value. -/
def mapFields (names : List String) (g : String → Json → Json) : Json → Json
  | object members => object (NameMap.map g members)
  | array items => array (mapItems g names items)
  | other => other

/-- Change a text. -/
def Written.mapText (f : String → String) : Written → Written
  | text s => text (s.map f)
  | other => other

/-- Change a text. -/
def mapText (f : String → String) : Json → Json
  | text s => text (f s)
  | other => other

/-! ## One change after another -/

section Changes

variable {α : Type} {name other : String} {f g : α → α}

theorem onField_self (name : String) (f : α → α) : onField name f name = f :=
  funext fun _ => if_pos rfl

theorem onField_of_ne (hne : other ≠ name) (f : α → α) : onField name f other = id :=
  funext fun _ => if_neg hne

theorem onField_onField (field : String) (x : α) :
    onField name g field (onField name f field x) = onField name (g ∘ f) field x := by
  by_cases hfield : field = name
  · rw [hfield, onField_self, onField_self, onField_self]
    rfl
  · rw [onField_of_ne hfield, onField_of_ne hfield, onField_of_ne hfield]
    rfl

theorem onField_comm (hne : other ≠ name) (field : String) (x : α) :
    onField name g field (onField other f field x) =
      onField other f field (onField name g field x) := by
  by_cases hfield : field = name
  · rw [hfield, onField_of_ne hne.symm]
    rfl
  · rw [onField_of_ne hfield]
    rfl

theorem mapItems_mapItems {f g : String → α → α} (names : List String) (items : List α) :
    mapItems g names (mapItems f names items) =
      mapItems (fun name x => g name (f name x)) names items := by
  induction names generalizing items with
  | nil => cases items <;> rfl
  | cons name names ih =>
      cases items with
      | nil => rfl
      | cons item items => rw [mapItems, mapItems, mapItems, ih]

end Changes

namespace Written

variable {names : List String} {w : Written}

theorem mapText_comp (f g : String → String) : mapText g ∘ mapText f = mapText (g ∘ f) := by
  funext w
  cases w with
  | text s => cases s <;> rfl
  | _ => rfl

theorem mapFields_mapFields {f g : String → Written → Written} :
    (w.mapFields names f).mapFields names g =
      w.mapFields names fun name found => g name (f name found) := by
  cases w with
  | array items => rw [mapFields, mapFields, mapItems_mapItems, mapFields]
  | object members =>
      rw [mapFields, mapFields, List.map_map, mapFields]
      congr 2
      funext member
      obtain ⟨_ | name, found⟩ := member <;> rfl
  | _ => rfl

theorem mapFields_onField {name : String} {f g : Written → Written} :
    (w.mapFields names (onField name f)).mapFields names (onField name g) =
      w.mapFields names (onField name (g ∘ f)) := by
  simp only [mapFields_mapFields, onField_onField]

/-- Changes of different fields can be made in either order. -/
theorem mapFields_onField_comm {name other : String} (hne : other ≠ name)
    {f g : Written → Written} :
    (w.mapFields names (onField other f)).mapFields names (onField name g) =
      (w.mapFields names (onField name g)).mapFields names (onField other f) := by
  simp only [mapFields_mapFields, onField_comm hne]

end Written

/-! ## Fields that are read -/

theorem length_mapItems {α : Type} (g : String → α → α) (names : List String) (items : List α) :
    (mapItems g names items).length = items.length := by
  induction names generalizing items with
  | nil => cases items <;> rfl
  | cons name names ih =>
      cases items with
      | nil => rfl
      | cons item items => rw [mapItems, List.length_cons, ih, List.length_cons]

theorem zip_mapItems {α : Type} (g : String → α → α) (names : List String) (items : List α) :
    names.zip (mapItems g names items) = NameMap.map g (names.zip items) := by
  induction names generalizing items with
  | nil => rfl
  | cons name names ih =>
      cases items with
      | nil => rfl
      | cons item items =>
          rw [mapItems, List.zip_cons_cons, ih, List.zip_cons_cons, NameMap.map_cons]

namespace Written

variable (g : String → Written → Written)

theorem mapText_eq_null_iff {f : String → String} {w : Written} :
    w.mapText f = null ↔ w = null := by
  cases w <;> simp [mapText]

theorem mapFields_eq_null_iff {names : List String} {w : Written} :
    w.mapFields names g = null ↔ w = null := by
  cases w <;> simp [mapFields]

theorem text?_mapText (f : String → String) (w : Written) :
    (w.mapText f).text? = w.text?.map f := by
  cases w <;> rfl

theorem knownMembers_map (names : List String) (members : List (Option String × Written)) :
    knownMembers names
        (members.map fun (name, found) => (name, name.elim found fun name => g name found)) =
      (knownMembers names members).map (NameMap.map g) := by
  induction members with
  | nil => rfl
  | cons member members ih =>
      obtain ⟨_ | name, found⟩ := member
      · rfl
      · rw [List.map_cons, knownMembers, knownMembers, ih]
        cases knownMembers names members with
        | none => rfl
        | some others =>
            simp only [Option.map_some, Option.bind_eq_bind, Option.bind_some, NameMap.lookup_map,
              Option.isSome_map, Option.elim_some]
            split
            · split <;> rfl
            · rfl

/-- The fields of a record that was changed are the changed fields. -/
theorem record?_mapFields (names : List String) (required : Nat) (w : Written) :
    (w.mapFields names g).record? names required =
      (w.record? names required).map (NameMap.map g) := by
  cases w with
  | object members => exact knownMembers_map g names members
  | array items =>
      rw [mapFields, record?, record?, length_mapItems, zip_mapItems]
      split <;> rfl
  | _ => rfl

/-- The table that was changed has the changed entries. -/
theorem table?_mapFields {α : Type} {read : Written → Option α} {k : String → α → α}
    (hread : ∀ name w, read (g name w) = (read w).map (k name)) (w : Written) :
    (w.mapFields [] g).table? read = (w.table? read).map (NameMap.map k) := by
  cases w with
  | object members =>
      have hentries : entries? read
          (members.map fun (name, found) => (name, name.elim found fun name => g name found)) =
            (entries? read members).map (NameMap.map k) := by
        induction members with
        | nil => rfl
        | cons member members ih =>
            obtain ⟨_ | name, found⟩ := member
            · rfl
            · rw [List.map_cons, entries?, entries?, ih]
              simp only [Option.bind_eq_bind, Option.bind_some, Option.elim_some, hread]
              cases read found <;> cases entries? read members <;> rfl
      rw [mapFields, table?, table?, hentries, Option.map_map, Option.map_map]
      congr 1
      funext entries
      exact (NameMap.map_ofList k entries).symm
  | _ => rfl

end Written

section Fields

variable {α : Type} {fields : List (String × Written)} {name : String} {f : Written → Written}

/-- A change of one field leaves the others. -/
theorem field_onField_of_ne {other : String} (hne : other ≠ name) (default : α)
    (read : Written → Option α) :
    field (NameMap.map (onField name f) fields) other default read =
      field fields other default read := by
  rw [field, field, NameMap.lookup_map, onField_of_ne hne, Option.map_id]
  rfl

/-- A change of a field is a change of what is read, if the default is left as it is. -/
theorem field_onField {read : Written → Option α} {g : α → α} {default : α}
    (hread : ∀ w, read (f w) = (read w).map g) (hdefault : g default = default) :
    field (NameMap.map (onField name f) fields) name default read =
      (field fields name default read).map g := by
  rw [field, field, NameMap.lookup_map, onField_self]
  cases fields.lookup name with
  | none => exact (congrArg some hdefault).symm
  | some found => exact hread found

theorem optional_onField_of_ne {other : String} (hne : other ≠ name)
    (read : Written → Option α) :
    optional (NameMap.map (onField name f) fields) other read = optional fields other read :=
  field_onField_of_ne hne none _

theorem optional_onField {read : Written → Option α} {g : α → α}
    (hread : ∀ w, read (f w) = (read w).map g) (hnull : ∀ w, f w = .null ↔ w = .null) :
    optional (NameMap.map (onField name f) fields) name read =
      (optional fields name read).map (Option.map g) := by
  refine field_onField (fun w => ?_) rfl
  by_cases hw : w = .null
  · rw [(hnull w).2 hw, hw]
    rfl
  · have hsome (v : Written) (hv : v ≠ .null) : v.orNull? read = (read v).map some := by
      cases v with
      | null => exact absurd rfl hv
      | _ => rfl
    rw [hsome w hw, hsome _ fun h => hw ((hnull w).1 h), hread, Option.map_map, Option.map_map]
    rfl

end Fields

/-! ## One field after another -/

section Steps

variable {α β γ : Type} {x x' : Option α} {read : α → Option β} {read' : α → Option γ} {k : β → γ}

/-- A reader that goes on from something changed answers something changed. -/
theorem bind_of_map {m : α → α} (hx : x' = x.map m)
    (hrest : ∀ a, read' (m a) = (read a).map k) : (x' >>= read') = (x >>= read).map k := by
  subst hx
  cases x with
  | none => rfl
  | some a => exact hrest a

theorem bind_of_eq (hx : x' = x) (hrest : ∀ a, read' a = (read a).map k) :
    (x' >>= read') = (x >>= read).map k := by
  subst hx
  cases x' with
  | none => rfl
  | some a => exact hrest a

end Steps

/-! ## Payloads -/

namespace Written

theorem value?_mapText (f : String → String) (depth : Nat) (w : Written) :
    value? depth (w.mapText f) = (value? depth w).map (Json.mapText f) := by
  cases w with
  | null => simp [mapText, value?, Json.mapText]
  | bool b => simp [mapText, value?, Json.mapText]
  | number n => cases n <;> simp [mapText, value?, Json.mapText]
  | text s => cases s <;> simp [mapText, value?, Json.mapText]
  | array items =>
      cases depth with
      | zero => simp [mapText, value?]
      | succ depth => cases h : values? depth items <;> simp [mapText, value?, h, Json.mapText]
  | object members =>
      cases depth with
      | zero => simp [mapText, value?]
      | succ depth =>
          cases h : memberValues? depth members <;> simp [mapText, value?, h, Json.mapText]

theorem ofValue_mapText (f : String → String) (json : Json) :
    ofValue (json.mapText f) = (ofValue json).mapText f := by
  cases json <;> simp [Json.mapText, ofValue, mapText]

variable {g : String → Written → Written} {k : String → Json → Json}

theorem values?_mapItems
    (hread : ∀ depth name w, value? depth (g name w) = (value? depth w).map (k name))
    (depth : Nat) (names : List String) (items : List Written) :
    values? depth (mapItems g names items) = (values? depth items).map (mapItems k names) := by
  induction items generalizing names with
  | nil => cases names <;> simp [mapItems, values?]
  | cons item items ih =>
      cases names with
      | nil =>
          have hid : mapItems k [] = id := funext fun items => by cases items <;> rfl
          rw [hid, Option.map_id]
          rfl
      | cons name names =>
          rw [mapItems, values?, values?, ih, hread]
          cases value? depth item <;> cases values? depth items <;> rfl

theorem memberValues?_map
    (hread : ∀ depth name w, value? depth (g name w) = (value? depth w).map (k name))
    (depth : Nat) (members : List (Option String × Written)) :
    memberValues? depth
        (members.map fun (name, found) => (name, name.elim found fun name => g name found)) =
      (memberValues? depth members).map (NameMap.map k) := by
  induction members with
  | nil => simp [memberValues?]
  | cons member members ih =>
      obtain ⟨_ | name, found⟩ := member
      · simp [memberValues?]
      · rw [List.map_cons, memberValues?, memberValues?, ih]
        simp only [Option.bind_eq_bind, Option.bind_some, Option.elim_some, hread]
        cases value? depth found <;> cases memberValues? depth members <;> rfl

/-- The value of a record that was changed is the value with the same change. -/
theorem value?_mapFields
    (hread : ∀ depth name w, value? depth (g name w) = (value? depth w).map (k name))
    (names : List String) (depth : Nat) (w : Written) :
    value? depth (w.mapFields names g) = (value? depth w).map (Json.mapFields names k) := by
  cases w with
  | null => simp [mapFields, value?, Json.mapFields]
  | bool b => simp [mapFields, value?, Json.mapFields]
  | number n => cases n <;> simp [mapFields, value?, Json.mapFields]
  | text s => cases s <;> simp [mapFields, value?, Json.mapFields]
  | array items =>
      cases depth with
      | zero => simp [mapFields, value?]
      | succ depth =>
          rw [mapFields, value?, value?, values?_mapItems hread]
          cases values? depth items <;> rfl
  | object members =>
      cases depth with
      | zero => simp [mapFields, value?]
      | succ depth =>
          rw [mapFields, value?, value?, memberValues?_map hread]
          cases memberValues? depth members with
          | none => rfl
          | some found => simp [Json.mapFields, NameMap.map_ofList]

/-- A change of a value is the same change of its text. -/
theorem ofValue_mapFields (hwrite : ∀ name json, ofValue (k name json) = g name (ofValue json))
    (names : List String) (json : Json) :
    ofValue (json.mapFields names k) = (ofValue json).mapFields names g := by
  cases json with
  | array items =>
      have hitems : ofValues (mapItems k names items) = mapItems g names (ofValues items) := by
        induction items generalizing names with
        | nil => cases names <;> simp [mapItems, ofValues]
        | cons item items ih =>
            cases names with
            | nil => simp [mapItems, ofValues]
            | cons name names => rw [mapItems, ofValues, ofValues, mapItems, hwrite, ih]
      rw [Json.mapFields, ofValue, hitems, ofValue, mapFields]
  | object members =>
      have hmembers : ofMembers (NameMap.map k members) =
          (ofMembers members).map fun (name, found) =>
            (name, name.elim found fun name => g name found) := by
        induction members with
        | nil => simp [ofMembers]
        | cons member members ih =>
            rw [NameMap.map_cons, ofMembers, ofMembers, List.map_cons, hwrite, ih]
            rfl
      rw [Json.mapFields, ofValue, hmembers, ofValue, mapFields]
  | _ => simp [Json.mapFields, ofValue, mapFields]

end Written

end Json

end Targeting
