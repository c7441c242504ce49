/-
# The order of version numbers

Versions are compared as two keys one after the other: the list of components, in the order of a
dictionary, and whether there is no suffix. So comparing is a total preorder: any two versions
compare, in opposite ways from the two sides, and what is not less than something not less is not
less. Conditions compare texts of versions by three functions, of which one holds if both texts are
versions, and none otherwise.

The minimum versions that a configuration asks for are compared in the same way. So a configuration
that accepts an app or a library accepts every later version of it.
-/

import Targeting.Condition.Call
import Targeting.Config.Basic

namespace Targeting

namespace Version

/-! ## Versions -/

theorem compareComponents_eq (as bs : List Int64) :
    compareComponents as bs = List.compareLex Ord.compare as bs := by
  induction as generalizing bs with
  | nil => cases bs <;> rfl
  | cons a as ih =>
      cases bs with
      | nil => rfl
      | cons b bs =>
          rw [compareComponents, List.compareLex_cons_cons, ih]
          have hcompare : Ord.compare a b = compareOfLessAndEq a b := rfl
          rw [hcompare, compareOfLessAndEq]
          by_cases hlt : a < b
          · simp [hlt]
          · by_cases hgt : b < a
            · have hne : a ≠ b := fun heq => hlt (heq ▸ hgt)
              simp [hlt, hgt, hne]
            · have heq : a = b := Int64.le_antisymm (Int64.not_lt.1 hgt) (Int64.not_lt.1 hlt)
              simp [heq]

/-- The order of two keys, one after the other. -/
theorem compare_eq (a b : Version) :
    a.compare b = compareLex (compareOn components) (compareOn fun v => v.suffix.isEmpty) a b := by
  rw [compare, compareComponents_eq]
  change _ = (List.compareLex Ord.compare a.components b.components).then
    (Ord.compare a.suffix.isEmpty b.suffix.isEmpty)
  cases List.compareLex Ord.compare a.components b.components <;>
    cases a.suffix.isEmpty <;> cases b.suffix.isEmpty <;> rfl

instance : Std.TransCmp compare :=
  have hkeys : compare =
      compareLex (compareOn components) (compareOn fun v : Version => v.suffix.isEmpty) :=
    funext fun a => funext fun b => compare_eq a b
  hkeys ▸ inferInstance

/-! ## Texts -/

/-- Whether a text is that of a version. -/
def IsVersion (text : String) : Prop := (parse? text).isSome

instance (text : String) : Decidable (IsVersion text) :=
  inferInstanceAs (Decidable ((parse? text).isSome = true))

/-- Whether a text is that of a version not less than the version of another. -/
def NotLess (later earlier : String) : Prop :=
  IsVersion later ∧ IsVersion earlier ∧ comparesAs .lt later earlier = false

instance (later earlier : String) : Decidable (NotLess later earlier) :=
  inferInstanceAs (Decidable (_ ∧ _ ∧ _))

variable {a b c : String} {expected : Ordering}

theorem comparesAs_iff : comparesAs expected a b ↔
    ∃ v w, parse? a = some v ∧ parse? b = some w ∧ v.compare w = expected := by
  rw [comparesAs]
  cases parse? a <;> cases parse? b <;> simp

/-- From the other side the comparison is the opposite. -/
theorem comparesAs_swap (expected : Ordering) (a b : String) :
    comparesAs expected a b = comparesAs expected.swap b a := by
  rw [Bool.eq_iff_iff, comparesAs_iff, comparesAs_iff]
  constructor
  · rintro ⟨v, w, ha, hb, rfl⟩
    exact ⟨w, v, hb, ha, Std.OrientedCmp.eq_swap⟩
  · rintro ⟨w, v, hb, ha, h⟩
    refine ⟨v, w, ha, hb, ?_⟩
    have hswap : v.compare w = (w.compare v).swap := Std.OrientedCmp.eq_swap
    rw [hswap, h, Ordering.swap_swap]

/-- Two versions compare in one way. -/
theorem exists_comparesAs_iff (ha : IsVersion a) (hb : IsVersion b) :
    ∃ order, ∀ expected, comparesAs expected a b ↔ expected = order := by
  obtain ⟨v, hv⟩ := Option.isSome_iff_exists.1 ha
  obtain ⟨w, hw⟩ := Option.isSome_iff_exists.1 hb
  refine ⟨v.compare w, fun expected => ?_⟩
  rw [comparesAs, hv, hw, decide_eq_true_iff, eq_comm]

theorem comparesAs_eq_false (h : ¬ (IsVersion a ∧ IsVersion b)) (expected : Ordering) :
    comparesAs expected a b = false := by
  rw [Bool.eq_false_iff]
  intro hcompares
  obtain ⟨v, w, ha, hb, -⟩ := comparesAs_iff.1 hcompares
  exact h ⟨by rw [IsVersion, ha]; rfl, by rw [IsVersion, hb]; rfl⟩

/-- A version is not less than another if the other comes first or they are equal. -/
theorem notLess_iff : NotLess b a ↔
    ∃ v w, parse? a = some v ∧ parse? b = some w ∧ (v.compare w).isLE := by
  have hnot (v w : Version) : w.compare v ≠ .lt ↔ (v.compare w).isLE := by
    have hsides : (w.compare v).isGE ↔ (v.compare w).isLE := Std.OrientedCmp.isGE_iff_isLE
    rw [← hsides, Ordering.isGE_iff_ne_lt]
  rw [NotLess, IsVersion, IsVersion, comparesAs]
  cases parse? a <;> cases parse? b <;> simp [hnot]

theorem NotLess.refl (ha : IsVersion a) : NotLess a a := by
  obtain ⟨v, hv⟩ := Option.isSome_iff_exists.1 ha
  exact notLess_iff.2 ⟨v, v, hv, hv, Std.ReflCmp.isLE_rfl⟩

theorem NotLess.trans (hab : NotLess a b) (hbc : NotLess b c) : NotLess a c := by
  obtain ⟨u, v, hb, ha, huv⟩ := notLess_iff.1 hab
  obtain ⟨w, v', hc, hb', hwv⟩ := notLess_iff.1 hbc
  cases hb.symm.trans hb'
  exact notLess_iff.2 ⟨w, v, hc, ha, Std.TransCmp.isLE_trans hwv huv⟩

end Version

/-! ## Minimum versions -/

namespace Config

open Version (NotLess)

variable {config : Config} {app library : String}

theorem checkVersions_eq_ok_iff : config.checkVersions app library = .ok () ↔
    (∀ minimum ∈ config.minAppVersion, isBelow app minimum = false) ∧
      ∀ minimum ∈ config.minLibraryVersion.toList ++ config.minInternalVersion.toList,
        isBelow library minimum = false := by
  rw [checkVersions]
  cases happ : config.minAppVersion.filter (isBelow app) with
  | some minimum =>
      obtain ⟨hmem, hbelow⟩ := Option.filter_eq_some_iff.1 happ
      refine iff_of_false nofun fun h => ?_
      rw [h.1 minimum hmem] at hbelow
      cases hbelow
  | none =>
      cases hlibrary : (config.minLibraryVersion.toList ++ config.minInternalVersion.toList).find?
          (isBelow library) with
      | some minimum =>
          refine iff_of_false nofun fun h => ?_
          have hbelow := List.find?_some hlibrary
          rw [h.2 minimum (List.mem_of_find?_eq_some hlibrary)] at hbelow
          cases hbelow
      | none =>
          refine iff_of_true rfl ⟨?_, ?_⟩
          · simpa using Option.filter_eq_none_iff.1 happ
          · simpa using List.find?_eq_none.1 hlibrary

/-- A version is not below a minimum if an earlier one is not. -/
theorem isBelow_of_notLess {later earlier minimum : String} (h : NotLess later earlier)
    (hearlier : isBelow earlier minimum = false) : isBelow later minimum = false := by
  by_cases hminimum : Version.IsVersion minimum
  · exact (h.trans ⟨h.2.1, hminimum, hearlier⟩).2.2
  · exact Version.comparesAs_eq_false (fun hboth => hminimum hboth.2) .lt

theorem checkVersions_of_notLess {app' library' : String}
    (h : config.checkVersions app library = .ok ()) (happ : app' = app ∨ NotLess app' app)
    (hlibrary : library' = library ∨ NotLess library' library) :
    config.checkVersions app' library' = .ok () := by
  rw [checkVersions_eq_ok_iff] at h ⊢
  obtain ⟨hminApp, hminLibrary⟩ := h
  constructor
  · intro minimum hmem
    obtain rfl | happ := happ
    · exact hminApp minimum hmem
    · exact isBelow_of_notLess happ (hminApp minimum hmem)
  · intro minimum hmem
    obtain rfl | hlibrary := hlibrary
    · exact hminLibrary minimum hmem
    · exact isBelow_of_notLess hlibrary (hminLibrary minimum hmem)

end Config

/-! ## Comparing in conditions -/

namespace Version

open Condition

/-- The functions that compare two texts. -/
def comparisons : List (String × Ordering) :=
  [("versionGreaterThan", .gt), ("versionLessThan", .lt), ("versionEqual", .eq)]

theorem exists_comparison (order : Ordering) : ∃ name, (name, order) ∈ comparisons := by
  cases order
  · exact ⟨"versionLessThan", by decide⟩
  · exact ⟨"versionEqual", by decide⟩
  · exact ⟨"versionGreaterThan", by decide⟩

theorem comparison_unique {p q : String × Ordering} (hp : p ∈ comparisons) (hq : q ∈ comparisons)
    (h : p.2 = q.2) : p.1 = q.1 := by
  have hunique : ∀ p ∈ comparisons, ∀ q ∈ comparisons, p.2 = q.2 → p.1 = q.1 := by decide
  exact hunique p hp q hq h

/-- Each of the functions expects one order, and asks the world nothing. -/
theorem callFunction_comparison {σ : Type} (env : Environment σ) (s : σ) {name : String}
    {expected : Ordering} (h : (name, expected) ∈ comparisons) (a b : String) :
    callFunction env name [.text a, .text b] s = (.ok (.bool (comparesAs expected a b)), s) := by
  have hfind : Builtin.find? name = some (.static (.versionCompare expected)) := by
    simp only [comparisons, List.mem_cons, List.not_mem_nil, or_false, Prod.mk.injEq] at h
    obtain ⟨rfl, rfl⟩ | ⟨rfl, rfl⟩ | ⟨rfl, rfl⟩ := h <;> decide
  rw [callFunction, hfind]
  rfl

/-- **Comparing versions is a total preorder, and minimum versions respect it.** What is greater
from one side is less from the other, and equality holds from both. Of two versions exactly one of
the three functions holds, and none holds if one of the texts is no version. What is not less than
something not less is not less. If a configuration accepts an app and a library, it accepts them
with any versions that are not less. -/
theorem versions_are_preordered {σ : Type} (env : Environment σ) (s : σ) (a b c : String) :
    let reply := fun name a b => callFunction env name [.text a, .text b] s
    let yes := (Except.ok (Value.bool true), s)
    let no := (Except.ok (Value.bool false), s)
    reply "versionGreaterThan" a b = reply "versionLessThan" b a ∧
      reply "versionEqual" a b = reply "versionEqual" b a ∧
      (IsVersion a → IsVersion b → ∃ name ∈ comparisons.map Prod.fst, reply name a b = yes ∧
        ∀ other ∈ comparisons.map Prod.fst, other ≠ name → reply other a b = no) ∧
      (¬ (IsVersion a ∧ IsVersion b) → ∀ name ∈ comparisons.map Prod.fst, reply name a b = no) ∧
      (IsVersion a → IsVersion b → IsVersion c → reply "versionLessThan" a b = no →
        reply "versionLessThan" b c = no → reply "versionLessThan" a c = no) ∧
      ∀ (config : Config) (app app' library library' : String),
        config.checkVersions app library = .ok () → app' = app ∨ NotLess app' app →
        library' = library ∨ NotLess library' library →
        config.checkVersions app' library' = .ok () := by
  intro reply yes no
  have hreply : ∀ name expected, (name, expected) ∈ comparisons → ∀ a b,
      reply name a b = (.ok (.bool (comparesAs expected a b)), s) :=
    fun name expected hname a b => callFunction_comparison env s hname a b
  have hgreater := hreply "versionGreaterThan" .gt (by decide)
  have hless := hreply "versionLessThan" .lt (by decide)
  have hequal := hreply "versionEqual" .eq (by decide)
  have hnot : ∀ a b, reply "versionLessThan" a b = no ↔ comparesAs .lt a b = false := by
    intro a b
    rw [hless]
    constructor
    · exact fun h => Value.bool.inj (Except.ok.inj (Prod.mk.inj h).1)
    · exact fun h => by rw [h]
  refine ⟨?_, ?_, fun ha hb => ?_, fun hnone name hname => ?_, fun ha hb hc hab hbc => ?_,
    fun config app app' library library' h happ hlibrary =>
      Config.checkVersions_of_notLess h happ hlibrary⟩
  · rw [hgreater, hless, comparesAs_swap]
    rfl
  · rw [hequal, hequal, comparesAs_swap]
    rfl
  · obtain ⟨order, horder⟩ := exists_comparesAs_iff ha hb
    obtain ⟨name, hname⟩ := exists_comparison order
    refine ⟨name, List.mem_map_of_mem hname, ?_, fun other hother hne => ?_⟩
    · rw [hreply name order hname, (horder order).2 rfl]
    · obtain ⟨⟨_, expected⟩, hmem, rfl⟩ := List.mem_map.1 hother
      have hfalse : comparesAs expected a b = false :=
        Bool.eq_false_iff.2 fun h => hne (comparison_unique hmem hname ((horder expected).1 h))
      rw [hreply _ expected hmem, hfalse]
  · obtain ⟨⟨_, expected⟩, hmem, rfl⟩ := List.mem_map.1 hname
    rw [hreply _ expected hmem, comparesAs_eq_false hnone]
  · rw [hnot] at hab hbc ⊢
    exact (NotLess.trans ⟨ha, hb, hab⟩ ⟨hb, hc, hbc⟩).2.2

/-- The first beta is as good as any later one, and the release is better; one more component makes
a version greater, even if it is zero. -/
theorem release_follows_beta :
    let config := { Config.empty "com.example.app" with
      minAppVersion := some "v2.0-beta", minLibraryVersion := some "1" }
    let reply := fun name a b => callFunction Environment.empty name [.text a, .text b] ()
    let no := (Except.ok (Value.bool false), ())
    (IsVersion "2.0.0" ∧ IsVersion "2.0" ∧ IsVersion "2.0-beta.2" ∧
      reply "versionLessThan" "2.0.0" "2.0" = no ∧
      reply "versionLessThan" "2.0" "2.0-beta.2" = no ∧
      reply "versionLessThan" "2.0.0" "2.0-beta.2" = no) ∧
      config.checkVersions "2.0-alpha" "1.0-rc" = .ok () ∧ NotLess "2.0.0" "2.0-alpha" ∧
      NotLess "v1.00" "1.0-rc" ∧ config.checkVersions "2.0.0" "v1.00" = .ok () := by
  intro config reply no
  obtain ⟨-, -, -, -, htrans, haccepts⟩ :=
    versions_are_preordered Environment.empty () "2.0.0" "2.0" "2.0-beta.2"
  have hversions : IsVersion "2.0.0" ∧ IsVersion "2.0" ∧ IsVersion "2.0-beta.2" := by
    decide +kernel
  obtain ⟨ha, hb, hc⟩ := hversions
  have hless : ("versionLessThan", Ordering.lt) ∈ comparisons := by decide
  have hab : reply "versionLessThan" "2.0.0" "2.0" = no := by
    refine (callFunction_comparison Environment.empty () hless _ _).trans ?_
    rw [show comparesAs .lt "2.0.0" "2.0" = false by decide +kernel]
  have hbc : reply "versionLessThan" "2.0" "2.0-beta.2" = no := by
    refine (callFunction_comparison Environment.empty () hless _ _).trans ?_
    rw [show comparesAs .lt "2.0" "2.0-beta.2" = false by decide +kernel]
  have hchecked : config.checkVersions "2.0-alpha" "1.0-rc" = .ok () :=
    Config.checkVersions_eq_ok_iff.2 (by decide +kernel)
  have hnotLess : NotLess "2.0.0" "2.0-alpha" ∧ NotLess "v1.00" "1.0-rc" := by decide +kernel
  exact ⟨⟨ha, hb, hc, hab, hbc, htrans ha hb hc hab hbc⟩, hchecked, hnotLess.1, hnotLess.2,
    haccepts config _ _ _ _ hchecked (.inr hnotLess.1) (.inr hnotLess.2)⟩

end Version

end Targeting
