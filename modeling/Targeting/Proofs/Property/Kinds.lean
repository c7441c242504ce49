/-
# The kind of a property

The kind of a name is settled once. Names of the catalog have the kind that the catalog gives them,
and so have the names that it derives from versions; the kind of another name is that of the first
provider that was registered for it. Registration is refused for providers of any other kind. The
text and the components of a version are put and dropped without that check, but they are names of
the catalog, and what is put there is of the right kind.

So the registered providers always agree with the kinds, whatever has been registered, set and
refused before. A value of another kind cannot be read, and nothing that is registered is a problem
when the app starts.
-/

import Targeting.Proofs.Property.Catalog
import Targeting.Proofs.Property.Registry

namespace Targeting

namespace Registry

variable {r : Registry} {name other : String} {p : Provider} {motive : Registry → Prop}

/-! ## What registration does -/

/-- A provider that is not refused is of the kind of the name. -/
theorem kind_eq_of_refusal? (h : r.refusal? name p = none) {kind : PropertyKind}
    (hkind : r.kind? name = some kind) : p.kind = kind := by
  rw [refusal?, hkind] at h
  by_contra hne
  split at h
  · cases h
  · split at h
    · cases h
    · simp [hne] at h

/-- The text of a version belongs to a version of the catalog. -/
theorem mem_all_of_versionText? {text : String} (h : versionText? name p = some text) :
    ∃ schema, (name, schema) ∈ Catalog.all ∧ schema.isVersion := by
  unfold versionText? at h
  split at h
  case h_1 schema hschema =>
    refine ⟨schema, Catalog.mem_all_of_schemaFor? hschema, ?_⟩
    by_contra hversion
    simp [hversion] at h
  case h_2 => cases h

/-- Registering the parts of a version puts and drops names of the catalog, and what it puts is of
their kinds. -/
theorem putVersion_induction {schema : PropertySchema} (hmem : (name, schema) ∈ Catalog.all)
    (hversion : schema.isVersion)
    (hput : ∀ r other q, Catalog.kindOf? other = some q.kind → motive r → motive (r.put other q))
    (hdrop : ∀ r other, (Catalog.kindOf? other).isSome → motive r → motive (r.drop other))
    (text : String) (h : motive r) : motive (r.putVersion name text).2 := by
  obtain ⟨htext, hparts⟩ := Catalog.wellNamed.derivedKind _ hmem hversion
  have hstart := hput r (versionTextName name) (.fixed (.text text)) htext h
  have hdropped := List.foldlRecOn Catalog.versionComponents
    (fun r part => r.drop (componentName name part)) hstart
    fun r hr part hpart => hdrop r _ (Option.isSome_of_eq_some (hparts part hpart)) hr
  rw [putVersion]
  cases Version.parse? text with
  | none => exact hdropped
  | some version =>
      refine List.foldlRecOn _ _ hdropped fun r hr entry hentry => ?_
      exact hput r _ _ (hparts _ (List.of_mem_zip hentry).1) hr

/-- What holds of a registry still holds after a registration, if it is kept when the provider is
put and when names of the catalog are put and dropped according to their kinds. -/
theorem register_induction (h : motive r)
    (haccept : r.refusal? name p = none → motive (r.put name p))
    (hput : ∀ r other q, Catalog.kindOf? other = some q.kind → motive r → motive (r.put other q))
    (hdrop : ∀ r other, (Catalog.kindOf? other).isSome → motive r → motive (r.drop other)) :
    motive (r.register name p).2 := by
  rw [register]
  cases hrefusal : r.refusal? name p with
  | some error => exact h
  | none =>
      cases htext : versionText? name p with
      | none => exact haccept hrefusal
      | some text =>
          obtain ⟨schema, hmem, hversion⟩ := mem_all_of_versionText? htext
          exact putVersion_induction hmem hversion hput hdrop text (haccept hrefusal)

/-! ## Changes -/

/-- What may be done to a registry: a provider is registered, fixed or not, a property of the app is
set, or several of them are set from JSON. -/
inductive Change where
  | register (name : String) (p : Provider)
  | setCustom (name : String) (value : PropertyValue)
  | setCustomJson (bytes : List UInt8)

/-- The registry after a change, whether or not that fails. -/
def Change.run (r : Registry) : Change → Registry
  | register name p => (r.register name p).2
  | setCustom name value => (r.setCustom name value).2
  | setCustomJson bytes => (r.setCustomJson bytes).2

/-- The registry after several changes. -/
def after (r : Registry) (changes : List Change) : Registry := changes.foldl Change.run r

/-- The registration that setting a property of the app comes down to, if its name may be used. -/
def customAttempt (name : String) (value : PropertyValue) : List (String × Provider) :=
  if isPlainName name then [(appName name, .fixed value)] else []

/-- The registration that a member of an object comes down to, if its value can be one. -/
def memberAttempt (member : String × Json) : List (String × Provider) :=
  match valueOf? member.2 with
  | some value => customAttempt member.1 value
  | none => []

/-- The registrations that a change comes down to. -/
def Change.attempts : Change → List (String × Provider)
  | register name p => [(name, p)]
  | setCustom name value => customAttempt name value
  | setCustomJson bytes => (membersOf bytes).flatMap memberAttempt

/-- The registry after several registrations. -/
def attempt (r : Registry) (attempts : List (String × Provider)) : Registry :=
  attempts.foldl (fun r (name, p) => (r.register name p).2) r

theorem attempt_cons (r : Registry) (name : String) (p : Provider)
    (rest : List (String × Provider)) :
    r.attempt ((name, p) :: rest) = (r.register name p).2.attempt rest := rfl

/-- The registrations that succeed, in order. -/
def successes (r : Registry) : List (String × Provider) → List (String × Provider)
  | [] => []
  | (name, p) :: rest =>
    match r.register name p with
    | (.ok (), r) => (name, p) :: r.successes rest
    | (.error _, r) => r.successes rest

theorem setCustom_eq_attempt (r : Registry) (name : String) (value : PropertyValue) :
    (r.setCustom name value).2 = r.attempt (customAttempt name value) := by
  rw [setCustom, customAttempt]
  split <;> rfl

theorem setMembers_eq_attempt (r : Registry) (members : List (String × Json)) :
    (r.setMembers members).2 = r.attempt (members.flatMap memberAttempt) := by
  induction members generalizing r with
  | nil => rfl
  | cons member rest ih =>
      obtain ⟨name, json⟩ := member
      have hmember : (r.setMember name json).2 = r.attempt (memberAttempt (name, json)) := by
        rw [setMember, memberAttempt]
        cases valueOf? json with
        | none => rfl
        | some value => exact setCustom_eq_attempt r name value
      rw [List.flatMap_cons, attempt, List.foldl_append, ← attempt, ← attempt, ← hmember, ← ih]
      rw [setMembers]
      rcases r.setMember name json with ⟨_ | _, r⟩ <;> rfl

theorem Change.run_eq_attempt (r : Registry) (change : Change) :
    change.run r = r.attempt change.attempts := by
  cases change with
  | register name p => rfl
  | setCustom name value => exact setCustom_eq_attempt r name value
  | setCustomJson bytes =>
      exact (snd_setCustomJson r bytes).trans (setMembers_eq_attempt r (membersOf bytes))

/-- Changes come down to registrations. -/
theorem after_eq_attempt (r : Registry) (changes : List Change) :
    r.after changes = r.attempt (changes.flatMap Change.attempts) := by
  induction changes generalizing r with
  | nil => rfl
  | cons change rest ih =>
      rw [after, List.foldl_cons, ← after, ih, change.run_eq_attempt, List.flatMap_cons, attempt,
        attempt, attempt, List.foldl_append]

/-! ## Kinds of the registered providers -/

/-- Every provider that is registered is of the kind of its name. -/
def Kinded (r : Registry) : Prop :=
  ∀ name p, r.provider? name = some p → r.kind? name = some p.kind

/-- Only the catalog has to be asked, for any other name has the kind of its provider. -/
theorem kinded_iff : r.Kinded ↔ ∀ name p kind, r.provider? name = some p →
    Catalog.kindOf? name = some kind → p.kind = kind := by
  refine forall₂_congr fun name p => ?_
  rw [kind?]
  cases Catalog.kindOf? name with
  | none => simp +contextual
  | some kind => simp [eq_comm]

theorem Kinded.put (h : r.Kinded)
    (hkind : ∀ kind, Catalog.kindOf? name = some kind → p.kind = kind) :
    (r.put name p).Kinded := by
  refine kinded_iff.2 fun other q kind hother hdeclared => ?_
  rw [provider?_put] at hother
  split at hother
  case isTrue heq =>
    cases hother
    exact hkind kind (heq ▸ hdeclared)
  case isFalse => exact kinded_iff.1 h other q kind hother hdeclared

theorem Kinded.drop (h : r.Kinded) (name : String) : (r.drop name).Kinded := by
  refine kinded_iff.2 fun other q kind hother hdeclared => ?_
  rw [provider?_drop] at hother
  split at hother
  case isTrue => cases hother
  case isFalse => exact kinded_iff.1 h other q kind hother hdeclared

theorem Kinded.register (h : r.Kinded) (name : String) (p : Provider) :
    (r.register name p).2.Kinded := by
  refine register_induction h (fun hrefusal => h.put fun kind hkind => ?_)
    (fun r other q hkind hr => hr.put fun kind hother => ?_) fun r other _ hr => hr.drop other
  · exact kind_eq_of_refusal? hrefusal (by rw [kind?, hkind])
  · exact Option.some.inj (hkind.symm.trans hother)

theorem kinded_attempt (h : r.Kinded) (attempts : List (String × Provider)) :
    (r.attempt attempts).Kinded :=
  List.foldlRecOn attempts _ h fun _ hr entry _ => hr.register entry.1 entry.2

/-- An answer of another kind counts as none. -/
theorem Kinded.kind_of_value (h : r.Kinded) {σ : Type} {answers : PropertyAnswers σ} {s : σ}
    {v : PropertyValue} (hvalue : (r.value answers name s).1 = some v) :
    r.kind? name = some v.kind := by
  rw [value] at hvalue
  cases hprovider : r.provider? name with
  | none => simp [hprovider] at hvalue
  | some p =>
      rw [hprovider] at hvalue
      have hkind : v.kind = p.kind := by simpa using (Option.filter_eq_some_iff.1 hvalue).2
      rw [hkind]
      exact h name p hprovider

/-- Only what is missing is a problem. -/
theorem Kinded.problems_eq (h : r.Kinded) :
    r.problems = (Catalog.all.filter fun (name, schema) =>
      schema.requirement = .required ∧ r.provider? name = none).map fun (name, _) =>
        "Missing required property: " ++ name := by
  rw [problems, ← List.filterMap_eq_map, List.filterMap_filter]
  refine List.filterMap_congr fun ⟨name, schema⟩ hmem => ?_
  have hdeclared : Catalog.kindOf? name = some schema.kind := by
    rw [Catalog.kindOf?, Catalog.wellNamed.declared _ hmem]
  cases hprovider : r.provider? name with
  | none => simp [problem?, hprovider]
  | some p =>
      have hkind := kinded_iff.1 h name p schema.kind hprovider hdeclared
      simp [problem?, hprovider, hkind]

/-! ## The first registration of a name -/

/-- A name outside of the catalog is not that of a version. -/
theorem versionText?_of_kindOf? (h : Catalog.kindOf? name = none) (p : Provider) :
    versionText? name p = none := by
  have hschema : Catalog.schemaFor? name = none := by
    rw [Catalog.kindOf?] at h
    split at h
    case h_1 => cases h
    case h_2 hschema => exact hschema
  simp [versionText?, hschema]

/-- Other registrations do not touch a name outside of the catalog. -/
theorem provider?_register_of_ne (hname : other ≠ name) (h : Catalog.kindOf? other = none) :
    (r.register name p).2.provider? other = r.provider? other := by
  have hne {declared : String} (hdeclared : (Catalog.kindOf? declared).isSome) :
      other ≠ declared := by
    rintro rfl
    simp [h] at hdeclared
  refine register_induction (motive := fun r' => r'.provider? other = r.provider? other) rfl
    (fun _ => ?_) (fun r' declared q hdeclared hr => ?_) fun r' declared hdeclared hr => ?_
  · rw [provider?_put, if_neg hname]
  · rw [provider?_put, if_neg (hne (Option.isSome_of_eq_some hdeclared)), hr]
  · rw [provider?_drop, if_neg (hne hdeclared), hr]

/-- A name outside of the catalog has the kind of the provider that was registered first. -/
theorem map_kind_attempt (h : Catalog.kindOf? name = none) (r : Registry)
    (attempts : List (String × Provider)) :
    ((r.attempt attempts).provider? name).map Provider.kind =
      ((r.provider? name).or ((r.successes attempts).lookup name)).map Provider.kind := by
  induction attempts generalizing r with
  | nil => simp [attempt, successes]
  | cons entry rest ih =>
      obtain ⟨other, p⟩ := entry
      rw [attempt_cons, ih, successes]
      by_cases hname : name = other
      · subst hname
        rw [register_of_versionText? (versionText?_of_kindOf? h p)]
        cases hrefusal : r.refusal? name p with
        | some error => rfl
        | none =>
            -- An earlier provider of the name has the same kind, for this one was not refused.
            have hkind : ∀ q, r.provider? name = some q → p.kind = q.kind := fun q hq =>
              kind_eq_of_refusal? hrefusal (by rw [kind?, h, hq]; rfl)
            simp only [provider?_put, NameMap.lookup_cons, if_true, Option.some_or, Option.map_some]
            cases hprovider : r.provider? name with
            | none => rfl
            | some q => exact congrArg some (hkind q hprovider)
      · have hsame := provider?_register_of_ne (r := r) (p := p) hname h
        rcases hregister : r.register other p with ⟨_ | _, r'⟩
        all_goals
          rw [hregister] at hsame
          simp only [hsame, NameMap.lookup_cons, if_neg hname]

/-! ## The kind of a property -/

/-- **A property keeps its kind.** Whatever has been done to a registry that was empty, a name has
the kind that the catalog gives it, or else the kind of the first provider that was registered for
it, and the provider that it has now is of that kind. So a value that is read is of the kind of its
name, whatever the world answers, and what is wrong with the registry is exactly that names are
missing which the catalog requires. -/
theorem kind_is_kept (changes : List Change) :
    let r := empty.after changes
    let attempts := changes.flatMap Change.attempts
    r = empty.attempt attempts ∧
      (∀ name, r.kind? name =
        (Catalog.kindOf? name).or (((empty.successes attempts).lookup name).map Provider.kind)) ∧
      (∀ name p, r.provider? name = some p → r.kind? name = some p.kind) ∧
      (∀ {σ : Type} (answers : PropertyAnswers σ) name s v, (r.value answers name s).1 = some v →
        r.kind? name = some v.kind) ∧
      r.problems = (Catalog.all.filter fun (name, schema) =>
        schema.requirement = .required ∧ r.provider? name = none).map fun (name, _) =>
          "Missing required property: " ++ name := by
  intro r attempts
  have hattempt : r = empty.attempt attempts := after_eq_attempt ..
  have hkinded : r.Kinded := hattempt ▸ kinded_attempt (fun name p h => by cases h) _
  refine ⟨hattempt, fun name => ?_, hkinded, fun answers name s v => hkinded.kind_of_value,
    hkinded.problems_eq⟩
  rw [kind?]
  cases hkind : Catalog.kindOf? name with
  | some kind => rfl
  | none =>
      dsimp only
      rw [hattempt, map_kind_attempt hkind]
      rfl

/-- Changes to the seats of an app, which are a number, and to the version of its system. Texts for
the seats and for a component of the version are refused, and the second version is no version. -/
def renewals : List Change :=
  [.register "os_version" (.fixed (.text "17.4")), .register "os_version_minor" (.app .text),
    .setCustom "seats" (.int 3), .register "custom_seats" (.app .text),
    .register "os_version" (.fixed (.text "beta")),
    .setCustomJson "\x7b\"seats\":\"four\",\"a-b\":1\x7d".toUTF8.toList,
    .register "custom_seats" (.history .int (.eventCount "seat")),
    .register "os_version_minor" (.app .int)]

/-- The seats and the component are now asked for, and an answer that is a text does not count. -/
theorem kinds_after_renewals :
    let r := empty.after renewals
    r.provider? "custom_seats" = some (.history .int (.eventCount "seat")) ∧
      r.provider? "os_version_minor" = some (.app .int) ∧
      r.provider? "os_version_major" = none ∧
      r.kind? "custom_seats" = some .int ∧ r.kind? "os_version_minor" = some .int ∧
      ∀ {σ : Type} (answers : PropertyAnswers σ) s v,
        (r.value answers "custom_seats" s).1 = some v → v.kind = .int := by
  intro r
  have hseats : r.provider? "custom_seats" = some (.history .int (.eventCount "seat")) := by
    decide +kernel
  have hminor : r.provider? "os_version_minor" = some (.app .int) := by decide +kernel
  obtain ⟨-, -, hkinds, hvalues, -⟩ := kind_is_kept renewals
  refine ⟨hseats, hminor, by decide +kernel, hkinds _ _ hseats, hkinds _ _ hminor,
    fun answers s v hvalue => ?_⟩
  have hkind := (hvalues answers _ s v hvalue).symm.trans (hkinds _ _ hseats)
  exact Option.some.inj hkind

end Registry

end Targeting
