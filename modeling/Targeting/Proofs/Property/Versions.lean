/-
# The parts of a version

A version that is registered as a text also has the text and the first components under derived
names. Registering another text replaces all of them, whether the new text is a version number or
not, so nothing is left of longer versions or better ones. But only texts do that: where the app or
the history is asked for a version from now on, the parts of the last text stay as they are, next to
a version that they do not belong to.

The derived names of different versions are different, and the app's own properties never go by one
of them. So, unless a derived name is registered itself, what is read under it depends on nothing
but the providers that were registered for its version.
-/

import Mathlib.Data.List.Infix
import Targeting.Proofs.Property.Members

namespace Targeting

/-- The text that a provider fixes. -/
def Provider.text? : Provider → Option String
  | .fixed (.text text) => some text
  | _ => none

theorem Provider.eq_of_text? {p : Provider} {text : String} (h : p.text? = some text) :
    p = .fixed (.text text) := by
  unfold text? at h
  split at h <;> cases h
  rfl

theorem Provider.text?_eq_none {p : Provider} (h : p.kind ≠ .text) : p.text? = none := by
  cases htext : p.text? with
  | none => rfl
  | some text => exact absurd (eq_of_text? htext ▸ rfl) h

namespace Registry

open Catalog (derived derivedFrom versions versionComponents wellNamed)

variable {r : Registry} {name other text : String} {p : Provider}

/-- The app's own properties are neither versions nor derived from versions. -/
theorem appName_notMem (name : String) : appName name ∉ versions ∧ appName name ∉ derived := by
  obtain ⟨schema, hschema, hwell, hname⟩ | hname := appName_cases name <;> rw [hname]
  · exact (wellNamed.wellKnown _ (Catalog.mem_all_of_schemaFor? hschema) hwell).2.2
  · have hnot := Catalog.customStart_notMem name
    rw [List.mem_append, not_or] at hnot
    refine ⟨fun hmem => hnot.1 ?_, hnot.2⟩
    obtain ⟨schema, hmem, -⟩ := Catalog.mem_versions_iff.1 hmem
    exact List.mem_map_of_mem hmem

/-! ## What is derived from a text -/

/-- The first components of a text that is a version number. -/
def componentsOf (name text : String) : List (String × PropertyValue) :=
  match Version.parse? text with
  | none => []
  | some version => (versionComponents.map (componentName name)).zip (version.components.map .int)

/-- What is derived from a version that is a text: the text itself and its first components. -/
def partsOf (name text : String) : List (String × PropertyValue) :=
  (versionTextName name, .text text) :: componentsOf name text

theorem map_fst_zip_isPrefix {α β : Type} (xs : List α) (ys : List β) :
    (xs.zip ys).map Prod.fst <+: xs := by
  induction xs generalizing ys with
  | nil => exact List.nil_prefix
  | cons x xs ih =>
      cases ys with
      | nil => exact List.nil_prefix
      | cons y ys => exact List.cons_prefix_cons.2 ⟨rfl, ih ys⟩

/-- Components are missing at the end only. -/
theorem map_fst_componentsOf_isPrefix (name text : String) :
    (componentsOf name text).map Prod.fst <+: versionComponents.map (componentName name) := by
  rw [componentsOf]
  cases Version.parse? text with
  | none => exact List.nil_prefix
  | some version => exact map_fst_zip_isPrefix ..

theorem map_fst_partsOf_isPrefix (name text : String) :
    (partsOf name text).map Prod.fst <+: derivedFrom name :=
  List.cons_prefix_cons.2 ⟨rfl, map_fst_componentsOf_isPrefix name text⟩

/-- The components that were there go before the new ones come. -/
theorem snd_putVersion (r : Registry) (name text : String) :
    (r.putVersion name text).2 =
      putAll ((versionComponents.map (componentName name)).foldl drop
        (r.put (versionTextName name) (.fixed (.text text)))) (componentsOf name text) := by
  rw [putVersion, componentsOf, List.foldl_map]
  cases Version.parse? text with
  | none => rfl
  | some version =>
      dsimp only
      rw [List.zip_map, putAll, List.foldl_map]
      rfl

theorem provider?_foldl_drop (names : List String) (r : Registry) :
    (names.foldl drop r).provider? other = if other ∈ names then none else r.provider? other := by
  induction names generalizing r with
  | nil => simp
  | cons first rest ih =>
      rw [List.foldl_cons, ih, provider?_drop]
      by_cases hrest : other ∈ rest <;> by_cases hfirst : other = first <;> simp [hrest, hfirst]

/-- A name that has no component of the text has none of an earlier text either. -/
theorem provider?_putVersion (h : other ∉ (componentsOf name text).map Prod.fst) :
    (r.putVersion name text).2.provider? other =
      if other ∈ versionComponents.map (componentName name) then none
      else if other = versionTextName name then some (.fixed (.text text))
      else r.provider? other := by
  rw [snd_putVersion, provider?_putAll_of_notMem h, provider?_foldl_drop, provider?_put]

theorem provider?_putVersion_of_notMem (h : other ∉ derivedFrom name) :
    (r.putVersion name text).2.provider? other = r.provider? other := by
  rw [derivedFrom, List.mem_cons, not_or] at h
  rw [provider?_putVersion (mt ((map_fst_componentsOf_isPrefix name text).subset ·) h.2),
    if_neg h.2, if_neg h.1]

/-- The parts of a version are fixed under their names, and nothing is under the other derived
names. -/
structure Shows (r : Registry) (name : String) (parts : List (String × PropertyValue)) : Prop where
  isPrefix : parts.map Prod.fst <+: derivedFrom name
  part : ∀ entry ∈ parts, r.provider? entry.1 = some (.fixed entry.2)
  other : ∀ other ∈ derivedFrom name, other ∉ parts.map Prod.fst → r.provider? other = none

variable {parts : List (String × PropertyValue)}

/-- It only matters what is registered under the derived names. -/
theorem Shows.of_eq (h : r.Shows name parts) {r' : Registry}
    (hsame : ∀ other ∈ derivedFrom name, r'.provider? other = r.provider? other) :
    r'.Shows name parts where
  isPrefix := h.isPrefix
  part entry hentry := by
    rw [hsame _ (h.isPrefix.subset (List.mem_map_of_mem hentry))]
    exact h.part entry hentry
  other other hother hnone := by
    rw [hsame other hother]
    exact h.other other hother hnone

/-- The parts of a text replace all that was derived before. -/
theorem shows_putVersion (hname : name ∈ versions) (r : Registry) (text : String) :
    (r.putVersion name text).2.Shows name (partsOf name text) := by
  obtain ⟨htext, hcomponents⟩ := List.nodup_cons.1 (wellNamed.derivedOnce name hname)
  have hinitial := map_fst_componentsOf_isPrefix name text
  refine ⟨map_fst_partsOf_isPrefix name text,
    List.forall_mem_cons.2 ⟨?_, fun entry hentry => ?_⟩, fun other hother hnone => ?_⟩
  · rw [provider?_putVersion (mt (hinitial.subset ·) htext), if_neg htext, if_pos rfl]
  · rw [snd_putVersion]
    exact provider?_putAll_of_mem (hinitial.sublist.nodup hcomponents) hentry
  · rw [partsOf, List.map_cons, List.mem_cons, not_or] at hnone
    rw [provider?_putVersion hnone.2, if_pos ((List.mem_cons.1 hother).resolve_left hnone.1)]

/-- What is read under the derived names are the parts, and nobody is asked for them. -/
theorem Shows.valuesOf_eq (h : r.Shows name parts) (hname : name ∈ versions) {σ : Type}
    (answers : PropertyAnswers σ) (s : σ) :
    r.valuesOf answers (derivedFrom name) s = (parts, s) := by
  obtain ⟨rest, hrest⟩ := h.isPrefix
  have hnodup := wellNamed.derivedOnce name hname
  rw [← hrest] at hnodup
  have hnone : ∀ other ∈ rest, r.provider? other = none := fun other hother =>
    h.other other (hrest ▸ List.mem_append_right _ hother) fun hpart =>
      (List.nodup_append.1 hnodup).2.2 other hpart other hother rfl
  rw [← hrest, valuesOf_append, valuesOf_of_fixed h.part]
  simp only [valuesOf_of_none hnone, List.append_nil]

/-! ## One registration -/

/-- A version can only be registered as a text, by whoever provides it. -/
theorem refusal?_version (hname : name ∈ versions) :
    r.refusal? name p = if p.kind = .text then none else some (.wrongKind name .text) := by
  obtain ⟨hkind, hne, -⟩ := wellNamed.version name hname
  simp [refusal?, kind?, hkind, hne]

theorem versionText?_version (hname : name ∈ versions) (p : Provider) :
    versionText? name p = p.text? := by
  obtain ⟨schema, hmem, hversion⟩ := Catalog.mem_versions_iff.1 hname
  unfold versionText? Provider.text?
  rw [wellNamed.declared _ hmem]
  split <;> simp_all

/-- What a registration of a version leaves. -/
theorem snd_register_version (hname : name ∈ versions) (r : Registry) (p : Provider) :
    (r.register name p).2 =
      if p.kind = .text then
        match p.text? with
        | some text => ((r.put name p).putVersion name text).2
        | none => r.put name p
      else r := by
  rw [register, refusal?_version hname, versionText?_version hname]
  by_cases hkind : p.kind = .text
  · rw [if_pos hkind, if_pos hkind]
    cases p.text? <;> rfl
  · rw [if_neg hkind, if_neg hkind]

/-- Any other registration puts the provider, or leaves the registry as it is. -/
theorem snd_register_of_notMem (hname : name ∉ versions) (r : Registry) (p : Provider) :
    (r.register name p).2 = r ∨ (r.register name p).2 = r.put name p := by
  have htext : versionText? name p = none := by
    cases htext : versionText? name p with
    | none => rfl
    | some text => exact absurd (Catalog.mem_versions_iff.2 (mem_all_of_versionText? htext)) hname
  rw [register_of_versionText? htext]
  cases r.refusal? name p with
  | some error => exact .inl rfl
  | none => exact .inr rfl

/-- A registration of another name leaves a version as it is. -/
theorem provider?_register (hname : name ∈ versions) (r : Registry) (other : String)
    (p : Provider) :
    (r.register other p).2.provider? name =
      if other = name ∧ p.kind = .text then some p else r.provider? name := by
  by_cases hversion : other ∈ versions
  · have hnot : name ∉ derivedFrom other := fun hmem =>
      (wellNamed.version name hname).2.2 (Catalog.mem_derived hversion hmem)
    rw [snd_register_version hversion]
    by_cases hkind : p.kind = .text
    · rw [if_pos hkind]
      cases p.text? with
      | none => simp [provider?_put, hkind, eq_comm]
      | some text => simp [provider?_putVersion_of_notMem hnot, provider?_put, hkind, eq_comm]
    · simp [hkind]
  · have hne : other ≠ name := fun heq => hversion (heq ▸ hname)
    obtain hregister | hregister := snd_register_of_notMem hversion r p <;>
      simp [hregister, provider?_put, hne, hne.symm]

/-- Only a text that is registered for the version itself changes its parts. -/
theorem Shows.register (h : r.Shows name parts) (hname : name ∈ versions)
    (hother : other ∉ derived) (p : Provider) :
    (r.register other p).2.Shows name
      (if other = name then p.text?.elim parts (partsOf name) else parts) := by
  have hput {r' : Registry} (hr' : r'.Shows name parts) : (r'.put other p).Shows name parts :=
    hr'.of_eq fun part hpart => by
      have hne : part ≠ other := fun heq => hother (heq ▸ Catalog.mem_derived hname hpart)
      rw [provider?_put, if_neg hne]
  by_cases hversion : other ∈ versions
  · rw [snd_register_version hversion]
    by_cases hkind : p.kind = .text
    · rw [if_pos hkind]
      cases htext : p.text? with
      | none => simpa using hput h
      | some text =>
          by_cases hsame : other = name
          · subst hsame
            simpa using shows_putVersion hname (r.put other p) text
          · rw [if_neg hsame]
            refine (hput h).of_eq fun part hpart => provider?_putVersion_of_notMem fun hmem => ?_
            exact hsame (wellNamed.origin other hversion name hname part hmem hpart)
    · simpa [hkind, Provider.text?_eq_none hkind] using h
  · have hne : other ≠ name := fun heq => hversion (heq ▸ hname)
    rw [if_neg hne]
    obtain hregister | hregister := snd_register_of_notMem hversion r p <;> rw [hregister]
    · exact h
    · exact hput h

/-! ## Changes of a registry -/

/-- The provider that a change registers for a version, unless it is refused. -/
def Change.providerFor? (name : String) : Change → Option Provider
  | register other p => if other = name ∧ p.kind = .text then some p else none
  | setCustom .. | setCustomJson .. => none

/-- The providers that changes register for a version, in order. -/
def providersFor (name : String) (changes : List Change) : List Provider :=
  changes.filterMap (Change.providerFor? name)

/-- The last text that changes register for a version, which need not be what they register last. -/
def lastText? (name : String) (changes : List Change) : Option String :=
  ((providersFor name changes).filterMap Provider.text?).getLast?

/-- Setting properties of the app leaves all names but theirs as they are. -/
theorem provider?_setCustom (h : ∀ own, other ≠ appName own) (r : Registry) (own : String)
    (v : PropertyValue) : (r.setCustom own v).2.provider? other = r.provider? other := by
  rw [setCustom_eq]
  split
  · cases r.refusal? (appName own) (.fixed v) with
    | some error => rfl
    | none => exact (provider?_put ..).trans (if_neg (h own))
  · rfl

theorem provider?_setCustomJson (h : ∀ own, other ≠ appName own) (r : Registry)
    (bytes : List UInt8) : (r.setCustomJson bytes).2.provider? other = r.provider? other := by
  rw [snd_setCustomJson_eq]
  refine provider?_putAll_of_notMem fun hmem => ?_
  obtain ⟨entry, hentry, rfl⟩ := List.mem_map.1 hmem
  obtain ⟨member, -, haccepted⟩ := List.mem_filterMap.1 hentry
  exact h _ (accepted?_eq_some_iff.1 haccepted).1

/-- A change registers at most one provider for a version. -/
theorem provider?_run (hname : name ∈ versions) (r : Registry) (change : Change) :
    (change.run r).provider? name = (change.providerFor? name).or (r.provider? name) := by
  have hown : ∀ own, name ≠ appName own := fun own heq =>
    (appName_notMem own).1 (heq ▸ hname)
  cases change with
  | register other p =>
      refine (provider?_register hname r other p).trans ?_
      rw [Change.providerFor?]
      split <;> rfl
  | setCustom own v => exact provider?_setCustom hown r own v
  | setCustomJson bytes => exact provider?_setCustomJson hown r bytes

/-- The parts of a version change only with a text that is registered for it. -/
theorem Shows.run (h : r.Shows name parts) (hname : name ∈ versions) {change : Change}
    (hderived : ∀ other p, change = .register other p → other ∉ derived) :
    (change.run r).Shows name
      (((change.providerFor? name).bind Provider.text?).elim parts (partsOf name)) := by
  have hown : ∀ other ∈ derivedFrom name, ∀ own, other ≠ appName own := fun other hother own heq =>
    (appName_notMem own).2 (heq ▸ Catalog.mem_derived hname hother)
  cases change with
  | register other p =>
      refine cast (congrArg _ ?_) (h.register hname (hderived other p rfl) p)
      rw [Change.providerFor?]
      by_cases hsame : other = name
      · by_cases hkind : p.kind = .text
        · simp [hsame, hkind]
        · simp [hsame, hkind, Provider.text?_eq_none hkind]
      · simp [hsame]
  | setCustom own v =>
      exact h.of_eq fun other hother => provider?_setCustom (hown other hother) r own v
  | setCustomJson bytes =>
      exact h.of_eq fun other hother => provider?_setCustomJson (hown other hother) r bytes

theorem after_append (r : Registry) (changes : List Change) (change : Change) :
    r.after (changes ++ [change]) = change.run (r.after changes) := by
  rw [after, List.foldl_append]
  rfl

theorem providersFor_append (name : String) (changes : List Change) (change : Change) :
    providersFor name (changes ++ [change]) =
      providersFor name changes ++ (change.providerFor? name).toList := by
  rw [providersFor, List.filterMap_append]
  refine congrArg (_ ++ ·) ?_
  cases hprovider : change.providerFor? name <;> simp [hprovider]

theorem lastText?_append (name : String) (changes : List Change) (change : Change) :
    lastText? name (changes ++ [change]) =
      ((change.providerFor? name).bind Provider.text?).or (lastText? name changes) := by
  rw [lastText?, providersFor_append, List.filterMap_append, List.getLast?_append]
  cases change.providerFor? name with
  | none => rfl
  | some p => cases htext : p.text? <;> simp [lastText?, htext]

/-- The provider of a version is the one that was registered last. -/
theorem provider?_after (hname : name ∈ versions) (changes : List Change) :
    (empty.after changes).provider? name = (providersFor name changes).getLast? := by
  induction changes using List.reverseRecOn with
  | nil => rfl
  | append_singleton changes change ih =>
      rw [after_append, provider?_run hname, ih, providersFor_append, List.getLast?_append]
      cases change.providerFor? name <;> rfl

/-- A text that was registered last is the last text. -/
theorem lastText?_of_getLast? {changes : List Change}
    (h : (providersFor name changes).getLast? = some p) (htext : p.text? = some text) :
    lastText? name changes = some text := by
  obtain ⟨before, hbefore⟩ := List.getLast?_eq_some_iff.1 h
  rw [lastText?, hbefore, List.filterMap_append, List.getLast?_append]
  simp [htext]

/-- After any changes, the derived names show the parts of the last text. -/
theorem shows_after (hname : name ∈ versions) {changes : List Change}
    (hderived : ∀ other p, .register other p ∈ changes → other ∉ derived) :
    (empty.after changes).Shows name ((lastText? name changes).elim [] (partsOf name)) := by
  induction changes using List.reverseRecOn with
  | nil => exact ⟨List.nil_prefix, List.forall_mem_nil _, fun _ _ _ => rfl⟩
  | append_singleton changes change ih =>
      have hbefore := ih fun other p hmem => hderived other p (List.mem_append_left _ hmem)
      rw [after_append, lastText?_append]
      have hafter : (change.run _).Shows name _ := hbefore.run hname fun other p heq =>
        hderived other p (heq ▸ List.mem_append_cons_self)
      cases htext : (change.providerFor? name).bind Provider.text? with
      | none => simpa [htext] using hafter
      | some text => simpa [htext] using hafter

/-- **The parts of a version are those of the last text.** Take any changes of an empty registry
that register no derived name. The provider of a version is then the one that was registered last,
where providers that are no texts are refused. What can be read under the derived names is, in
order, what is derived from the last fixed text among all that were registered, and nothing if there
was none; and nobody is asked for it. So if a fixed text is the present provider, these are its
parts. But if the app or the history provides the version now, what is left of the last text can
still be read. -/
theorem parts_follow_last_text {changes : List Change}
    (hderived : ∀ other p, .register other p ∈ changes → other ∉ derived)
    (hname : name ∈ versions) {σ : Type} (answers : PropertyAnswers σ) (s : σ) :
    let r := empty.after changes
    let readable := r.valuesOf answers (derivedFrom name) s
    r.provider? name = (providersFor name changes).getLast? ∧
      readable = ((lastText? name changes).elim [] (partsOf name), s) ∧
      (∀ text, r.provider? name = some (.fixed (.text text)) → readable = (partsOf name text, s)) ∧
      (readable.1 = [] ↔ ∀ p ∈ providersFor name changes, p.text? = none) := by
  intro r readable
  have hprovider := provider?_after hname changes
  have hreadable : readable = _ := (shows_after hname hderived).valuesOf_eq hname answers s
  refine ⟨hprovider, hreadable, fun text htext => ?_, ?_⟩
  · rw [hreadable, lastText?_of_getLast? (hprovider.symm.trans htext) rfl]
    rfl
  · have hnone : lastText? name changes = none ↔
        ∀ p ∈ providersFor name changes, p.text? = none := by
      rw [lastText?, List.getLast?_eq_none_iff, List.filterMap_eq_nil_iff]
    rw [hreadable, ← hnone]
    cases lastText? name changes <;> simp [partsOf]

/-- An app of version 2.3.1 is asked for its version later on. The system goes from 17.4.1 to a beta
of 18, and a number is refused as its version. The model of the device is no version number. -/
def releases : List Change :=
  [.register "app_version" (.fixed (.text "2.3.1")),
    .register "os_version" (.fixed (.text "17.4.1")),
    .register "device_model_version" (.fixed (.text "16,1")),
    .register "app_version" (.app .text),
    .register "os_version" (.fixed (.text "18-beta")),
    .register "os_version" (.fixed (.int 18))]

/-- The app says that its version is 3.0. -/
def thirdRelease : PropertyAnswers Unit where
  app _ s := (some (.text "3.0"), s)
  history _ s := (none, s)
  sessionStart s := (⟨0⟩, s)

/-- Nothing is left of the older system, and the model has no components. But next to version 3.0 of
the app the parts of version 2.3.1 can still be read. -/
theorem parts_outlive_version :
    let r := empty.after releases
    let readable name := (r.valuesOf thirdRelease (derivedFrom name) ()).1
    (r.value thirdRelease "app_version" ()).1 = some (.text "3.0") ∧
      readable "app_version" =
        [("app_version_string", .text "2.3.1"), ("app_version_major", .int 2),
          ("app_version_minor", .int 3), ("app_version_patch", .int 1)] ∧
      readable "os_version" =
        [("os_version_string", .text "18-beta"), ("os_version_major", .int 18)] ∧
      readable "device_model_version" = [("device_model_version_string", .text "16,1")] := by
  intro r readable
  have hderived : ∀ other p, .register other p ∈ releases → other ∉ derived := by
    intro other p hmem
    simp only [releases, List.mem_cons, Change.register.injEq, List.not_mem_nil, or_false] at hmem
    obtain ⟨rfl, -⟩ | ⟨rfl, -⟩ | ⟨rfl, -⟩ | ⟨rfl, -⟩ | ⟨rfl, -⟩ | ⟨rfl, -⟩ := hmem <;>
      decide +kernel
  obtain ⟨happ, hparts, -⟩ :=
    parts_follow_last_text hderived (by decide +kernel : "app_version" ∈ versions) thirdRelease ()
  obtain ⟨hos, -, hsystem, -⟩ :=
    parts_follow_last_text hderived (by decide +kernel : "os_version" ∈ versions) thirdRelease ()
  obtain ⟨hdevice, -, hmodel, -⟩ :=
    parts_follow_last_text hderived (by decide +kernel : "device_model_version" ∈ versions)
      thirdRelease ()
  have hpresent : r.provider? "app_version" = some (.app .text) := happ.trans (by decide +kernel)
  have hlast : lastText? "app_version" releases = some "2.3.1" := by decide +kernel
  refine ⟨?_, (congrArg Prod.fst hparts).trans ?_,
    (congrArg Prod.fst (hsystem "18-beta" (hos.trans (by decide +kernel)))).trans ?_,
    (congrArg Prod.fst (hmodel "16,1" (hdevice.trans (by decide +kernel)))).trans ?_⟩
  · rw [value, hpresent]
    rfl
  · rw [hlast]
    decide +kernel
  · decide +kernel
  · decide +kernel

end Registry

end Targeting
