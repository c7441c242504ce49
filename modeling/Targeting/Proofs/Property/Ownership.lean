/-
# What an app can change

What the library knows of a device is registered next to what an app says about itself. An app only
reaches the well-known names, which are declared for it, and names that start like those of the app.
No version is among them, so setting a name never touches the components of one, and a name that is
refused changes nothing.

Setting the members of a JSON object is setting them one after the other in the order of their
names. The answer is that of the first member that fails, and the names of all members if none does.
-/

import Targeting.Proofs.Property.Versions

namespace Targeting

/-- A name that is left to the app: it is well known, or it starts like the names of the app. -/
def Catalog.IsForApp (name : String) : Prop :=
  (∃ schema ∈ schemaFor? name, schema.requirement = .wellKnown) ∨
    customStart.toList <+: name.toList

instance : DecidablePred Catalog.IsForApp := fun _ => inferInstanceAs (Decidable (_ ∨ _))

namespace Registry

variable {r : Registry} {name other : String} {v : PropertyValue} {error : PropertyError}

theorem isForApp_appName (name : String) : Catalog.IsForApp (appName name) := by
  obtain ⟨schema, hschema, hwell, hname⟩ | hname := appName_cases name
  · rw [hname]
    exact .inl ⟨schema, hschema, hwell⟩
  · rw [hname]
    exact .inr ⟨name.toList, (String.toList_append ..).symm⟩

/-! ## One name -/

/-- A name is set, or the registry stays as it is. -/
theorem setCustom_cases (r : Registry) (name : String) (v : PropertyValue) :
    r.setCustom name v = (.ok (appName name), r.put (appName name) (.fixed v)) ∨
      ∃ error, r.setCustom name v = (.error error, r) := by
  rw [setCustom_eq]
  by_cases hplain : isPlainName name
  · rw [if_pos hplain]
    cases r.refusal? (appName name) (.fixed v) with
    | none => exact .inl rfl
    | some error => exact .inr ⟨error, rfl⟩
  · rw [if_neg hplain]
    exact .inr ⟨_, rfl⟩

theorem snd_setCustom_of_error (h : (r.setCustom name v).1 = .error error) :
    (r.setCustom name v).2 = r := by
  obtain hset | ⟨_, hset⟩ := r.setCustom_cases name v
  · rw [hset] at h
    cases h
  · rw [hset]

/-- What is not left to the app is no name under which the app sets a value. -/
theorem ne_appName_of_not_isForApp (hother : ¬ Catalog.IsForApp other) (own : String) :
    other ≠ appName own :=
  fun h => hother (h ▸ isForApp_appName own)

/-! ## Several names -/

/-- Set values under names, one after the other. Those that are refused are passed over. -/
def setAll (r : Registry) (entries : List (String × PropertyValue)) : Registry :=
  entries.foldl (fun r (name, v) => (r.setCustom name v).2) r

/-- The truth values, texts and numbers among members, as values of properties. -/
def settable (members : List (String × Json)) : List (String × PropertyValue) :=
  members.filterMap fun (name, json) => (valueOf? json).map (name, ·)

/-- The answers for members that are set in order, each of them after the ones before. -/
def answers (r : Registry) : List (String × Json) → List (Except PropertyError String)
  | [] => []
  | (name, json) :: rest =>
    let (answer, r) := r.setMember name json
    answer :: r.answers rest

theorem provider?_setAll (hother : ¬ Catalog.IsForApp other) (r : Registry)
    (entries : List (String × PropertyValue)) :
    (r.setAll entries).provider? other = r.provider? other := by
  induction entries generalizing r with
  | nil => rfl
  | cons entry rest ih =>
      exact (ih _).trans
        (provider?_setCustom (ne_appName_of_not_isForApp hother) r entry.1 entry.2)

/-- Members that cannot be values of properties change nothing. -/
theorem snd_setMembers (r : Registry) (members : List (String × Json)) :
    (r.setMembers members).2 = r.setAll (settable members) := by
  induction members generalizing r with
  | nil => rfl
  | cons member rest ih =>
      obtain ⟨name, json⟩ := member
      have hnext : (r.setMembers ((name, json) :: rest)).2 =
          ((r.setMember name json).2.setMembers rest).2 := by
        rw [setMembers]
        rcases r.setMember name json with ⟨_ | _, r'⟩ <;> rfl
      rw [hnext, ih, setMember]
      cases hvalue : valueOf? json <;> simp [settable, setAll, hvalue]

/-- No member fails just if each of them answers with its full name. -/
theorem setMembers_eq_accepted_iff (r : Registry) (members : List (String × Json))
    (names : List String) : (r.setMembers members).1 = ⟨names, none⟩ ↔
      r.answers members = names.map .ok := by
  induction members generalizing r names with
  | nil => simp [setMembers, answers, eq_comm]
  | cons member rest ih =>
      obtain ⟨name, json⟩ := member
      rw [setMembers, answers]
      rcases r.setMember name json with ⟨_ | full, r'⟩
      · cases names <;> simp
      · dsimp only
        cases names with
        | nil => simp
        | cons first names =>
            rw [List.map_cons, List.cons.injEq, Except.ok.injEq, ← ih]
            rcases r'.setMembers rest with ⟨⟨accepted, failure⟩, r''⟩
            simp [and_assoc]

/-- The failure is that of the first member that has one. -/
theorem failure_setMembers_iff (r : Registry) (members : List (String × Json))
    (error : PropertyError) : (r.setMembers members).1.failure = some error ↔
      ∃ (before : List String) (rest : List (Except PropertyError String)),
        r.answers members = before.map .ok ++ .error error :: rest := by
  induction members generalizing r with
  | nil => simp [setMembers, answers]
  | cons member rest ih =>
      obtain ⟨name, json⟩ := member
      rw [setMembers, answers]
      rcases r.setMember name json with ⟨failure | full, r'⟩
      · dsimp only
        constructor
        · rintro ⟨⟩
          exact ⟨[], _, rfl⟩
        · rintro ⟨_ | ⟨full, before⟩, later, hlist⟩
          · cases hlist
            rfl
          · cases hlist
      · dsimp only
        rw [ih]
        constructor
        · rintro ⟨before, later, hlist⟩
          exact ⟨full :: before, later, congrArg _ hlist⟩
        · rintro ⟨_ | ⟨first, before⟩, later, hlist⟩
          · cases hlist
          · exact ⟨before, later, (List.cons.inj hlist).2⟩

/-- The members of an object are set, whatever the answer. -/
theorem setCustomJson_of_object {bytes : List UInt8} {members : List (String × Json)}
    (hparse : Json.parse? bytes = some (.object members)) (r : Registry) :
    r.setCustomJson bytes = (match (r.setMembers members).1.failure with
      | some error => .error error
      | none => .ok (r.setMembers members).1.accepted, (r.setMembers members).2) := by
  rw [setCustomJson, hparse]
  dsimp only
  cases (r.setMembers members).1.failure <;> rfl

/-- A text with members is an object. -/
theorem parse?_of_membersOf {bytes : List UInt8} (h : membersOf bytes ≠ []) :
    Json.parse? bytes = some (.object (membersOf bytes)) := by
  unfold membersOf at h ⊢
  split at h
  case h_1 hparse => rw [hparse]
  case h_2 => exact absurd rfl h

/-- **An app changes what is left to it, and nothing else.** A name that is refused leaves the
registry as it is. A JSON object sets its truth values, texts and numbers in the order of the names,
as if each was set on its own, and answers with all full names or with the first failure. -/
theorem app_keeps_to_its_names (r : Registry) :
    (∀ name v, (∀ other, ¬ Catalog.IsForApp other →
        (r.setCustom name v).2.provider? other = r.provider? other) ∧
      ∀ error, (r.setCustom name v).1 = .error error → (r.setCustom name v).2 = r) ∧
    ∀ bytes, (∀ other, ¬ Catalog.IsForApp other →
        (r.setCustomJson bytes).2.provider? other = r.provider? other) ∧
      ∀ members, Json.parse? bytes = some (.object members) →
        NameMap.IsSorted members ∧
        (r.setCustomJson bytes).2 = r.setAll (settable members) ∧
        (∀ names, (r.setCustomJson bytes).1 = .ok names ↔
          r.answers members = names.map .ok) ∧
        ∀ error, (r.setCustomJson bytes).1 = .error error ↔
          ∃ (before : List String) (rest : List (Except PropertyError String)),
            r.answers members = before.map .ok ++ .error error :: rest := by
  refine ⟨fun name v => ⟨fun other hother =>
    provider?_setCustom (ne_appName_of_not_isForApp hother) r name v,
    fun error => snd_setCustom_of_error⟩, fun bytes => ⟨fun other hother => ?_,
    fun members hparse => ⟨(Json.members_of_parse? hparse).1, ?_, fun names => ?_,
      fun error => ?_⟩⟩⟩
  · rw [snd_setCustomJson, snd_setMembers, provider?_setAll hother]
  · rw [setCustomJson_of_object hparse, snd_setMembers]
  · rw [← setMembers_eq_accepted_iff, setCustomJson_of_object hparse]
    rcases (r.setMembers members).1 with ⟨accepted, _ | error⟩ <;> simp
  · rw [← failure_setMembers_iff, setCustomJson_of_object hparse]
    rcases (r.setMembers members).1 with ⟨accepted, _ | failure⟩ <;> simp

/-- What an app writes that takes itself for the library: a version, a plan of the wrong kind, and a
member without a value. -/
def pretence : List UInt8 :=
  ("\x7b\"user_signed_in\":true,\"app_version\":\"9.0\",\"plan\":\"pro\"," ++
    "\"x\":null\x7d").toUTF8.toList

/-- The registered version stays, the members after the one that fails are set, and the answer is
that of the first failure in the order of the names. -/
theorem pretence_is_confined :
    let r := ((empty.register "app_version" (.fixed (.text "2.3.1"))).2.register "custom_plan"
      (.app .int)).2
    (r.setCustomJson pretence).1 = .error (.wrongKind "custom_plan" .int) ∧
      (r.setCustomJson pretence).2.provider? "app_version_major" = some (.fixed (.int 2)) ∧
      (r.setCustomJson pretence).2.provider? "custom_app_version" = some (.fixed (.text "9.0")) ∧
      (r.setCustomJson pretence).2.provider? "user_signed_in" = some (.fixed (.bool true)) := by
  intro r
  have hmembers : Json.parse? pretence = some (.object (membersOf pretence)) :=
    parse?_of_membersOf fun hnone =>
      absurd (congrArg List.length hnone) (by decide +kernel)
  obtain ⟨-, hjson⟩ := app_keeps_to_its_names r
  obtain ⟨hframe, hobject⟩ := hjson pretence
  obtain ⟨-, hafter, -, herror⟩ := hobject _ hmembers
  refine ⟨(herror _).2
    ⟨["custom_app_version"], [.ok "user_signed_in", .error (.unsupportedType "x")],
    by decide +kernel⟩, ?_, ?_, ?_⟩
  · rw [hframe _ (by decide +kernel)]
    decide +kernel
  · rw [hafter]
    decide +kernel
  · rw [hafter]
    decide +kernel

end Registry

end Targeting
