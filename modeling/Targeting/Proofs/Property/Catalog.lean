/-
# Names of the catalog

The catalog is a finite list, so whatever concerns its names one by one, or two at a time, is seen by
going through them. No name is declared or derived twice, none of them looks like a property of the
app, and what is derived from versions has the kind of a text or of a number.
-/

import Targeting.Proofs.Text.Lines
import Targeting.Property.Registry

namespace Targeting.Catalog

open Registry (componentName versionTextName)

variable {name other : String}

/-- Names of the properties that hold a version number. -/
def versions : List String := (all.filter fun entry => entry.2.isVersion).map Prod.fst

/-- Names that are derived from a version: that of its text and those of its components. -/
def derivedFrom (name : String) : List String :=
  versionTextName name :: versionComponents.map (componentName name)

/-- All names that are derived from versions. -/
def derived : List String := versions.flatMap derivedFrom

/-- What is seen by going through the catalog. -/
structure WellNamed : Prop where
  /-- No name is declared twice. -/
  declared : ∀ entry ∈ all, schemaFor? entry.1 = some entry.2
  /-- A version is declared as a text, and its name is not derived from another one. -/
  version : ∀ name ∈ versions, kindOf? name = some .text ∧ name ≠ "" ∧ name ∉ derived
  /-- What is derived from a version has a kind of its own. -/
  derivedKind : ∀ entry ∈ all, entry.2.isVersion → kindOf? (versionTextName entry.1) = some .text ∧
    ∀ part ∈ versionComponents, kindOf? (componentName entry.1 part) = some .int
  /-- Everything that is derived has a name of its own. -/
  derivedOnce : ∀ name ∈ versions, (derivedFrom name).Nodup
  origin : ∀ first ∈ versions, ∀ second ∈ versions, ∀ other ∈ derivedFrom first,
    other ∈ derivedFrom second → first = second
  /-- A property that the app provides is recorded when it is set, and has to do with no version. -/
  wellKnown : ∀ entry ∈ all, entry.2.requirement = .wellKnown →
    entry.2.sampling = .onCustomSet ∧ entry.2.isVersion = false ∧
      entry.1 ∉ versions ∧ entry.1 ∉ derived
  /-- No name looks like one of the app. -/
  notCustom : ∀ name ∈ all.map Prod.fst ++ derived,
    Split.afterStart? customStart.toList name.toList = none

theorem wellNamed : WellNamed where
  declared := by decide +kernel
  version := by decide +kernel
  derivedKind := by decide +kernel
  derivedOnce := by decide +kernel
  origin := by decide +kernel
  wellKnown := by decide +kernel
  notCustom := by decide +kernel

theorem mem_all_of_schemaFor? {schema : PropertySchema} (h : schemaFor? name = some schema) :
    (name, schema) ∈ all := by
  obtain ⟨before, rest, hall, -⟩ := List.lookup_eq_some_iff.1 h
  exact hall ▸ List.mem_append_cons_self

theorem mem_versions_iff : name ∈ versions ↔ ∃ schema, (name, schema) ∈ all ∧ schema.isVersion := by
  simp [versions]

theorem mem_derived (hname : name ∈ versions) (hother : other ∈ derivedFrom name) :
    other ∈ derived :=
  List.mem_flatMap.2 ⟨name, hname, hother⟩

theorem afterStart?_customStart (name : String) :
    Split.afterStart? customStart.toList (customStart ++ name).toList = some name.toList :=
  Split.afterStart?_eq_some_iff.2 (by simp)

/-- A name of the app is neither declared nor derived. -/
theorem customStart_notMem (name : String) :
    customStart ++ name ∉ all.map Prod.fst ++ derived := by
  intro hmem
  have hnone := wellNamed.notCustom _ hmem
  rw [afterStart?_customStart] at hnone
  cases hnone

theorem schemaFor?_customStart (name : String) : schemaFor? (customStart ++ name) = none := by
  refine List.lookup_eq_none_iff.2 fun entry hentry => bne_iff_ne.2 fun hsame => ?_
  refine customStart_notMem name (List.mem_append_left _ ?_)
  exact hsame ▸ List.mem_map_of_mem hentry

theorem isCustom_customStart (h : name ≠ "") : isCustom (customStart ++ name) := by
  rw [isCustom, afterStart?_customStart]
  cases hlist : name.toList with
  | nil => exact absurd (String.toList_eq_nil_iff.1 hlist) h
  | cons c rest => rfl

end Targeting.Catalog
