/-
# Setting properties of the app from JSON

The members of an object are set one after the other, and those that fail are passed over. They do
not get in each other's way: different names of the app are registered under different names, none
of which is that of a version, so whether a member is accepted does not depend on the others. What
is left is each accepted value under its name, and every other name as it was.

The answer does not show this. It names the accepted members only if no member failed.
-/

import Targeting.Proofs.History.Columns
import Targeting.Proofs.Json.Members
import Targeting.Proofs.Property.Kinds

namespace Targeting

/-! ## Names of the app -/

namespace Registry

variable {r : Registry} {name other : String} {p : Provider} {v : PropertyValue}

theorem appName_cases (name : String) :
    (∃ schema, Catalog.schemaFor? name = some schema ∧ schema.requirement = .wellKnown ∧
      appName name = name) ∨ appName name = Catalog.customStart ++ name := by
  rw [appName]
  cases hschema : Catalog.schemaFor? name with
  | none => exact .inr rfl
  | some schema =>
      by_cases hwell : schema.requirement = .wellKnown
      · exact .inl ⟨schema, rfl, hwell, if_pos hwell⟩
      · exact .inr (if_neg hwell)

/-- Different names are registered under different names. -/
theorem appName_inj (h : appName name = appName other) : name = other := by
  obtain ⟨schema, hschema, -, hname⟩ | hname := appName_cases name <;>
    obtain ⟨schema', hschema', -, hother⟩ | hother := appName_cases other
  · rw [← hname, h, hother]
  · rw [hname, hother] at h
    rw [h, Catalog.schemaFor?_customStart] at hschema
    cases hschema
  · rw [hname, hother] at h
    rw [← h, Catalog.schemaFor?_customStart] at hschema'
    cases hschema'
  · rw [hname, hother] at h
    exact (String.append_right_inj _).1 h

theorem versionText?_appName (name : String) (p : Provider) :
    versionText? (appName name) p = none := by
  obtain ⟨schema, hschema, hwell, hname⟩ | hname := appName_cases name
  · have hmem := Catalog.mem_all_of_schemaFor? hschema
    obtain ⟨-, hversion, -⟩ := Catalog.wellNamed.wellKnown _ hmem hwell
    rw [hname]
    cases p with
    | fixed value => cases value <;> simp_all [versionText?]
    | app _ | history _ _ | sessionStart => rfl
  · simp [hname, versionText?, Catalog.schemaFor?_customStart]

/-- What the app sets is recorded when it is set. -/
theorem sampling_appName (h : isPlainName name) : sampling (appName name) = .onCustomSet := by
  obtain ⟨schema, hschema, hwell, hname⟩ | hname := appName_cases name
  · have hmem := Catalog.mem_all_of_schemaFor? hschema
    obtain ⟨hsampling, -⟩ := Catalog.wellNamed.wellKnown _ hmem hwell
    rw [hname, sampling, hschema]
    exact hsampling
  · have hne : name ≠ "" := by
      rintro rfl
      cases h
    rw [hname, sampling, Catalog.schemaFor?_customStart]
    exact if_pos (Catalog.isCustom_customStart hne)

/-! ## Accepted members -/

/-- What a member alone would be registered as: a name and its value, unless it fails. -/
def accepted? (r : Registry) (member : String × Json) : Option (String × PropertyValue) :=
  match valueOf? member.2, (r.setMember member.1 member.2).1 with
  | some v, .ok full => some (full, v)
  | _, _ => none

/-- The registry with fixed values, set in order. -/
def putAll (r : Registry) (entries : List (String × PropertyValue)) : Registry :=
  entries.foldl (fun r (full, v) => r.put full (.fixed v)) r

theorem setCustom_eq (r : Registry) (name : String) (v : PropertyValue) :
    r.setCustom name v =
      if isPlainName name then
        match r.refusal? (appName name) (.fixed v) with
        | some error => (.error error, r)
        | none => (.ok (appName name), r.put (appName name) (.fixed v))
      else (.error (.malformedName name), r) := by
  rw [setCustom, register_of_versionText? (versionText?_appName name _)]
  cases r.refusal? (appName name) (.fixed v) <;> rfl

/-- A member that fails leaves the registry as it is. Any other is registered under its name. -/
theorem setMember_cases (r : Registry) (name : String) (json : Json) :
    (∃ v, r.accepted? (name, json) = some (appName name, v) ∧
      r.setMember name json = (.ok (appName name), r.put (appName name) (.fixed v))) ∨
      r.accepted? (name, json) = none ∧ ∃ error, r.setMember name json = (.error error, r) := by
  rw [accepted?, setMember]
  cases valueOf? json with
  | none => exact .inr ⟨rfl, _, rfl⟩
  | some v =>
      dsimp only
      rw [setCustom_eq]
      by_cases hplain : isPlainName name
      · rw [if_pos hplain]
        cases r.refusal? (appName name) (.fixed v) with
        | none => exact .inl ⟨v, rfl, rfl⟩
        | some error => exact .inr ⟨rfl, error, rfl⟩
      · rw [if_neg hplain]
        exact .inr ⟨rfl, _, rfl⟩

/-- A member is accepted if its name may be used and its value is not refused under the name that it
is registered under. -/
theorem accepted?_eq_some_iff {member : String × Json} : r.accepted? member = some (name, v) ↔
    name = appName member.1 ∧ isPlainName member.1 ∧ valueOf? member.2 = some v ∧
      r.refusal? (appName member.1) (.fixed v) = none := by
  rw [accepted?, setMember]
  cases hvalue : valueOf? member.2 with
  | none => simp
  | some value =>
      dsimp only
      rw [setCustom_eq]
      by_cases hplain : isPlainName member.1
      · rw [if_pos hplain]
        cases hrefusal : r.refusal? (appName member.1) (.fixed value) with
        | none =>
            simp only [Option.some.injEq, Prod.mk.injEq]
            constructor
            · rintro ⟨rfl, rfl⟩
              exact ⟨rfl, hplain, rfl, hrefusal⟩
            · rintro ⟨rfl, -, rfl, -⟩
              exact ⟨rfl, rfl⟩
        | some error =>
            simp only [reduceCtorEq, false_iff]
            rintro ⟨-, -, hsame, hnone⟩
            obtain rfl := Option.some.inj hsame
            rw [hrefusal] at hnone
            cases hnone
      · simp [hplain]

theorem refusal?_put (h : other ≠ name) (q : Provider) :
    (r.put name p).refusal? other q = r.refusal? other q := by
  simp [refusal?, kind?, provider?_put, h]

/-- Whether a member is accepted does not depend on other names. -/
theorem accepted?_put {member : String × Json} (h : appName member.1 ≠ name) :
    (r.put name p).accepted? member = r.accepted? member := by
  refine Option.ext fun (full, v) => ?_
  rw [accepted?_eq_some_iff, accepted?_eq_some_iff, refusal?_put h]

/-- Members with different names are accepted or fail each on its own. -/
theorem setMembers_eq {members : List (String × Json)} (hnames : (members.map Prod.fst).Nodup)
    (r : Registry) :
    (r.setMembers members).2 = r.putAll (members.filterMap r.accepted?) ∧
      (r.setMembers members).1.accepted = (members.filterMap r.accepted?).map Prod.fst ∧
      ((r.setMembers members).1.failure = none ↔
        ∀ member ∈ members, (r.accepted? member).isSome) := by
  induction members generalizing r with
  | nil => exact ⟨rfl, rfl, by simp [setMembers]⟩
  | cons member rest ih =>
      obtain ⟨name, json⟩ := member
      obtain ⟨hname, hrest⟩ := List.nodup_cons.1 hnames
      rw [setMembers]
      obtain ⟨v, haccepted, hset⟩ | ⟨haccepted, error, hset⟩ := r.setMember_cases name json
      · have hsame : ∀ member ∈ rest, (r.put (appName name) (.fixed v)).accepted? member =
            r.accepted? member := by
          refine fun member hmember => accepted?_put fun heq => hname ?_
          rw [← appName_inj heq]
          exact List.mem_map.2 ⟨member, hmember, rfl⟩
        obtain ⟨hafter, hothers, hfailure⟩ := ih hrest (r.put (appName name) (.fixed v))
        rw [hset, List.filterMap_cons_some haccepted, ← List.filterMap_congr hsame]
        refine ⟨hafter, congrArg _ hothers, hfailure.trans ?_⟩
        rw [List.forall_mem_cons, haccepted]
        simp only [Option.isSome_some, true_and]
        exact forall₂_congr fun member hmember => by rw [hsame member hmember]
      · obtain ⟨hafter, hothers, hfailure⟩ := ih hrest r
        rw [hset, List.filterMap_cons_none haccepted]
        exact ⟨hafter, hothers, by simp [haccepted]⟩

theorem provider?_putAll_of_notMem {entries : List (String × PropertyValue)}
    (h : name ∉ entries.map Prod.fst) : (r.putAll entries).provider? name = r.provider? name := by
  induction entries generalizing r with
  | nil => rfl
  | cons entry rest ih =>
      rw [List.map_cons, List.mem_cons, not_or] at h
      rw [putAll, List.foldl_cons, ← putAll, ih h.2, provider?_put, if_neg h.1]

theorem provider?_putAll_of_mem {entries : List (String × PropertyValue)}
    (hnames : (entries.map Prod.fst).Nodup) (h : (name, v) ∈ entries) :
    (r.putAll entries).provider? name = some (.fixed v) := by
  induction entries generalizing r with
  | nil => cases h
  | cons entry rest ih =>
      obtain ⟨hfirst, hrest⟩ := List.nodup_cons.1 hnames
      rw [putAll, List.foldl_cons, ← putAll]
      obtain rfl | h := List.mem_cons.1 h
      · rw [provider?_putAll_of_notMem hfirst, provider?_put, if_pos rfl]
      · exact ih hrest h

/-! ## Setting properties from a text -/

/-- What a text sets: the accepted members of the object that it writes. -/
def taken (r : Registry) (bytes : List UInt8) : List (String × PropertyValue) :=
  (membersOf bytes).filterMap r.accepted?

/-- A text that sets properties without a failure: it writes an object with no other members than
accepted ones. -/
def TakesAll (r : Registry) (bytes : List UInt8) : Prop :=
  (∃ members, Json.parse? bytes = some (.object members)) ∧
    ∀ member ∈ membersOf bytes, (r.accepted? member).isSome

variable {bytes : List UInt8}

/-- Members have different names, and the numbers among them are numbers. -/
theorem membersOf_spec (bytes : List UInt8) : ((membersOf bytes).map Prod.fst).Nodup ∧
    ∀ member ∈ membersOf bytes, ∀ n, member.2 = .number n → n.toFloat.isNaN = false := by
  rw [membersOf]
  split
  case h_1 members hparse =>
    obtain ⟨hsorted, hnumbers⟩ := Json.members_of_parse? hparse
    refine ⟨NameMap.nodup_of_isSorted hsorted, ?_⟩
    rintro ⟨name, _⟩ hmember n rfl
    exact hnumbers name n hmember
  case h_2 => exact ⟨.nil, List.forall_mem_nil _⟩

/-- Columns can keep what JSON writes, for it writes no NaN. -/
theorem isKept_of_valueOf? {json : Json} (h : valueOf? json = some v)
    (hnumber : ∀ n, json = .number n → n.toFloat.isNaN = false) : v.IsKept := by
  cases json with
  | number n =>
      rw [valueOf?] at h
      split at h
      case h_1 =>
        cases h
        trivial
      case h_2 =>
        cases h
        exact hnumber n rfl
  | bool _ | text _ =>
      cases h
      trivial
  | null | array _ | object _ => cases h

/-- What is set has a name of the app, and a value that columns can keep. -/
theorem of_mem_taken (h : (name, v) ∈ r.taken bytes) :
    name ≠ "" ∧ sampling name = .onCustomSet ∧ v.IsKept := by
  obtain ⟨member, hmember, haccepted⟩ := List.mem_filterMap.1 h
  obtain ⟨rfl, hplain, hvalue, -⟩ := accepted?_eq_some_iff.1 haccepted
  have hsampling := sampling_appName hplain
  refine ⟨?_, hsampling, isKept_of_valueOf? hvalue ((membersOf_spec bytes).2 member hmember)⟩
  intro hempty
  rw [hempty] at hsampling
  exact absurd hsampling (by decide)

/-- No name is set twice. -/
theorem nodup_taken (r : Registry) (bytes : List UInt8) :
    ((r.taken bytes).map Prod.fst).Nodup := by
  have hnames : (membersOf bytes).Pairwise fun a b => a.1 ≠ b.1 :=
    List.pairwise_map.1 (membersOf_spec bytes).1
  refine List.pairwise_map.2 (hnames.filterMap _ fun a b hne x hx y hy hsame => hne ?_)
  obtain ⟨hx, -⟩ := accepted?_eq_some_iff.1 hx
  obtain ⟨hy, -⟩ := accepted?_eq_some_iff.1 hy
  exact appName_inj (hx.symm.trans (hsame.trans hy))

/-- Whatever the answer, the accepted members have been set. -/
theorem snd_setCustomJson_eq (r : Registry) (bytes : List UInt8) :
    (r.setCustomJson bytes).2 = r.putAll (r.taken bytes) :=
  (snd_setCustomJson r bytes).trans (setMembers_eq (membersOf_spec bytes).1 r).1

/-- The answer names what has been set, but only if there was no failure. -/
theorem setCustomJson_eq_ok_iff {names : List String} : (r.setCustomJson bytes).1 = .ok names ↔
    r.TakesAll bytes ∧ names = (r.taken bytes).map Prod.fst := by
  obtain ⟨-, haccepted, hfailure⟩ := setMembers_eq (membersOf_spec bytes).1 r
  rw [TakesAll, ← hfailure, taken, ← haccepted, setCustomJson]
  cases hparse : Json.parse? bytes with
  | none => simp
  | some json =>
      cases json with
      | object members =>
          have hmembers : membersOf bytes = members := by rw [membersOf, hparse]
          rw [hmembers]
          dsimp only
          rcases r.setMembers members with ⟨⟨accepted, _ | error⟩, r'⟩ <;> simp [eq_comm]
      | null | bool _ | number _ | text _ | array _ => simp

end Registry

end Targeting
