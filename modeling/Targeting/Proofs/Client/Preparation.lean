/-
# What may refuse a start

Before a client takes over a configuration it registers its own properties and checks that all
required ones are there, reads the file, looks for a reason to trust it, and checks the app and the
versions. All of this changes nothing but the client's own properties, which every start registers
again, and the cached file.
-/

import Mathlib.Data.List.TakeWhile
import Targeting.Client.Start
import Targeting.Proofs.Client.Run
import Targeting.Proofs.Config.Container
import Targeting.Proofs.Property.Registry
import Targeting.Proofs.Version.Order

namespace Targeting.Client

variable {μ : Type}

/-! ## Trust -/

/-- Blanks of ASCII; the vertical tab is none. -/
def asciiBlanks : List UInt8 := [9, 10, 12, 13, 32]

/-- The bytes of a file give a client reason to trust a configuration: it is signed, it has no
content, or it is a local file and the client may trust those. -/
inductive Trusts (c : Client) (bytes : List UInt8) : Config → Prop where
  | signed {body : List UInt8} {config : Config} (hsigned : Config.Signed c.verifier bytes body)
    (hread : Config.ofJson c.engine body = .ok config) : Trusts c bytes config
  | blank {before after : List UInt8} (hblank : ∀ b ∈ before ++ after, b ∈ asciiBlanks)
    (hbytes : bytes = before ++ "\x7b\x7d".toUTF8.toList ++ after) :
    Trusts c bytes (Config.empty c.bundleId)
  | debug {config : Config} (hallowed : c.allowDebugLoad)
    (hfile : (Settings.filePath? c.configUrl).isSome)
    (hread : Config.ofJson c.engine bytes = .ok config) : Trusts c bytes config

/-- The version of the app, empty if the property is missing or no text. -/
def versionOf : Option PropertyValue → String
  | some (.text version) => version
  | _ => ""

/-- A configuration is for the app of a client, and neither for later versions of it nor of the
library. -/
structure Suits (c : Client) (config : Config) (appVersion : Option PropertyValue) : Prop where
  app : config.appId = c.bundleId
  appVersion : ∀ minimum ∈ config.minAppVersion,
    Version.comparesAs .lt (versionOf appVersion) minimum = false
  libraryVersion : ∀ minimum ∈ config.minLibraryVersion.toList ++ config.minInternalVersion.toList,
    Version.comparesAs .lt libraryVersion minimum = false

theorem exists_of_trimmed {bytes inner : List UInt8} (h : trimmed bytes = inner) :
    ∃ before after, (∀ b ∈ before ++ after, b ∈ asciiBlanks) ∧
      bytes = before ++ inner ++ after := by
  let isBlank := fun (b : UInt8) => b = 9 || b = 10 || b = 12 || b = 13 || b = 32
  have hblank {b : UInt8} (hb : isBlank b) : b ∈ asciiBlanks := by
    simpa [isBlank, asciiBlanks, or_assoc] using hb
  let rest := (bytes.dropWhile isBlank).reverse
  refine ⟨bytes.takeWhile isBlank, (rest.takeWhile isBlank).reverse, fun b hb => ?_, ?_⟩
  · obtain hb | hb := List.mem_append.1 hb
    · exact hblank (List.mem_takeWhile_imp hb)
    · exact hblank (List.mem_takeWhile_imp (List.mem_reverse.1 hb))
  · have hrest : inner ++ (rest.takeWhile isBlank).reverse = bytes.dropWhile isBlank := by
      rw [← h, trimmed, ← List.reverse_append, List.takeWhile_append_dropWhile,
        List.reverse_reverse]
    rw [List.append_assoc, hrest, List.takeWhile_append_dropWhile]

/-- A file is only read as a configuration that there is reason to trust. -/
theorem trusts_of_configOf {c : Client} {bytes : List UInt8} {config : Config}
    (h : c.configOf bytes = .ok config) : c.Trusts bytes config := by
  rw [configOf] at h
  split at h
  case h_1 sealed hsealed =>
    cases h
    obtain ⟨body, hsigned, hread⟩ := Config.ofContainer_eq_ok_iff.1 hsealed
    exact .signed hsigned hread
  case h_2 =>
    split at h
    case isTrue hempty =>
      cases h
      obtain ⟨before, after, hblank, hbytes⟩ := exists_of_trimmed hempty
      exact .blank hblank hbytes
    case isFalse =>
      split at h
      case isTrue hdebug =>
        obtain ⟨hallowed, hfile⟩ := Bool.and_eq_true_iff.1 hdebug
        exact .debug hallowed hfile h
      case isFalse => cases h

theorem suits_of_checkConfig {c : Client} {config : Config} {appVersion : Option PropertyValue}
    (h : c.checkConfig config appVersion = .ok ()) : c.Suits config appVersion := by
  unfold checkConfig at h
  by_cases happ : config.appId = c.bundleId
  case neg =>
    rw [if_pos happ] at h
    cases h
  case pos =>
    rw [if_neg (not_not.2 happ)] at h
    obtain ⟨hminimum, hlibrary⟩ := Config.checkVersions_eq_ok_iff.1 h
    exact ⟨happ, hminimum, hlibrary⟩

/-! ## Preparation -/

variable {host : Host μ}

/-- The registry with the properties that a client provides itself, at the time of a start. -/
def withOwn (r : Registry) (t : Calendar.Instant) : Registry :=
  (r.put appStartName (.fixed (.timestamp t))).put sessionStartName .sessionStart

/-- Every start registers them as if none had before. -/
theorem withOwn_withOwn (r : Registry) (t t' : Calendar.Instant) :
    withOwn (withOwn r t) t' = withOwn r t' := by
  have hne : appStartName ≠ sessionStartName := by decide
  simp only [withOwn]
  rw [← Registry.put_comm (r.put appStartName _) hne, Registry.put_put_self,
    Registry.put_put_self]

/-- Registration does not fail; then the properties are checked. -/
theorem registerOwn_apply (host : Host μ) (w : World μ) :
    registerOwn host w =
      let (t, memory) := host.now w.memory
      let registry := withOwn w.client.registry t
      (match registry.problems with
        | [] => .ok ()
        | problems => .error (.invalidProperties problems),
        ⟨{ w.client with registry := registry }, memory⟩) := by
  rcases hnow : host.now w.memory with ⟨t, memory⟩
  have hstart : w.client.registry.register appStartName (.fixed (.timestamp t)) =
      (.ok (), w.client.registry.put appStartName (.fixed (.timestamp t))) :=
    Registry.register_eq_put (by decide)
      (show Catalog.kindOf? appStartName = some .timestamp by decide) rfl
  have hsession (r : Registry) : r.register sessionStartName .sessionStart =
      (.ok (), r.put sessionStartName .sessionStart) :=
    Registry.register_eq_put (by decide) (by decide) rfl
  have hown : withOwn w.client.registry t =
      (w.client.registry.put appStartName (.fixed (.timestamp t))).put sessionStartName
        .sessionStart := rfl
  simp only [registerOwn, now, ask, Step.bind_apply, Step.current_apply, hnow, hstart, hsession,
    ← hown]
  cases (withOwn w.client.registry t).problems <;> rfl

/-- A client without its directory. -/
def withoutFiles (c : Client) : Client := { c with files := .empty }

theorem eq_of_withoutFiles {c k : Client} (h : c.withoutFiles = k.withoutFiles) :
    c = { k with files := c.files } :=
  congrArg (fun other : Client => { other with files := c.files }) h

/-- An answer that does not say that the client has already started. -/
def Afresh {α : Type} (answer : Except ClientError α) : Prop :=
  ∀ err, answer = .error err → err ≠ .alreadyStarted

theorem Afresh.ok {α : Type} (a : α) : Afresh (.ok a) := by
  rintro _ ⟨⟩

theorem Afresh.error {α : Type} {err : ClientError} (h : err ≠ .alreadyStarted) :
    Afresh (.error err : Except ClientError α) := by
  rintro _ ⟨⟩
  exact h

theorem readConfig_keeps {k : Client} :
    Step.Keeps withoutFiles k Afresh (readConfig host) := by
  have hcontent (content : Option (List UInt8)) : Afresh (contentOf content) := by
    cases content with
    | none => exact .error (by simp)
    | some bytes => exact .ok bytes
  refine Step.Keeps.current.bind fun c _ => ?_
  split
  · exact (Step.Keeps.ask _).bind fun content _ => .pure (hcontent content)
  · refine (Step.Keeps.ask _).bind fun nonce _ => (Step.Keeps.ask _).bind fun fetched _ => ?_
    obtain ⟨result, files⟩ := fetched
    have hchange : Step.Keeps withoutFiles k (fun _ => True)
        (change fun c => { c with files := files } : Step μ Unit) := .change fun _ => rfl
    refine hchange.bind fun _ _ => ?_
    cases result with
    | error err => exact .pure (.error (by simp))
    | ok file => exact .pure (hcontent _)

/-- Reading a property does not record it. -/
theorem store_of_answer (sessionStart : Option Calendar.Instant) (name : String)
    (s : Surroundings μ) (p : Provider) :
    ((answers host sessionStart).answer name s p).2.1 = s.1 := by
  cases p with
  | sessionStart => cases sessionStart <;> rfl
  | _ => rfl

theorem propertyValue_client (name : String) (w : World μ) :
    (propertyValue host name w).2.client = w.client := by
  have hstore : (w.client.registry.value (answers host w.client.sessionStart) name
      (w.client.store, w.memory)).2.1 = w.client.store := by
    rw [Registry.value]
    split
    · rfl
    · exact store_of_answer ..
  exact congrArg (fun store => ({ w.client with store := store } : Client)) hstore

theorem propertyValue_keeps {k : Client} (name : String) :
    Step.Keeps withoutFiles k (fun _ => True) (propertyValue host name) :=
  fun w hw => ⟨(congrArg withoutFiles (propertyValue_client name w)).trans hw, trivial⟩

theorem loadConfig_keeps {k : Client} :
    Step.Keeps withoutFiles k Afresh (loadConfig host) := by
  refine readConfig_keeps.bind fun content hcontent => ?_
  cases content with
  | error err => exact .pure (.error (hcontent err rfl))
  | ok bytes =>
      refine Step.Keeps.current.bind fun c _ => ?_
      cases c.configOf bytes with
      | error err => exact .pure (.error (by simp))
      | ok config =>
          have hnone : Step.Keeps withoutFiles k (fun _ => True)
              (pure none : Step μ (Option PropertyValue)) := .pure trivial
          dsimp only
          split
          case' isTrue => refine (propertyValue_keeps _).bind fun appVersion _ => ?_
          case' isFalse => refine hnone.bind fun appVersion _ => ?_
          all_goals
            cases c.checkConfig config appVersion with
            | error err => exact .pure (.error (by simp))
            | ok => exact .pure (.ok _)

/-- A configuration that is loaded is the one in the file, and has been checked. -/
theorem checked_of_loadConfig {w : World μ} {config : Config}
    (h : (loadConfig host w).1 = .ok config) :
    (∃ bytes, (readConfig host w).1 = .ok bytes ∧ w.client.configOf bytes = .ok config) ∧
      w.client.checkConfig config
        (propertyValue host appVersionName (readConfig host w).2).1 = .ok () := by
  have hkept : (readConfig host w).2.client.withoutFiles = w.client.withoutFiles :=
    (readConfig_keeps w rfl).1
  -- What is asked of the client afterwards does not depend on its directory.
  have hconfigOf (bytes : List UInt8) :
      (readConfig host w).2.client.configOf bytes = w.client.configOf bytes := by
    have hsame := congrArg (fun c => configOf c bytes) hkept
    exact hsame
  have hcheck (config : Config) (appVersion : Option PropertyValue) :
      (readConfig host w).2.client.checkConfig config appVersion =
        w.client.checkConfig config appVersion := by
    have hsame := congrArg (fun c => checkConfig c config appVersion) hkept
    exact hsame
  rw [loadConfig, Step.bind_apply] at h
  cases hread : (readConfig host w).1 with
  | error err =>
      rw [hread] at h
      cases h
  | ok bytes =>
      rw [hread] at h
      dsimp only at h
      rw [Step.bind_apply, Step.current_apply] at h
      dsimp only at h
      rw [hconfigOf] at h
      cases hconfig : w.client.configOf bytes with
      | error err =>
          rw [hconfig] at h
          cases h
      | ok found =>
          rw [hconfig] at h
          dsimp only at h
          split at h
          case isTrue =>
            rw [Step.bind_apply, hcheck] at h
            cases hsuits : w.client.checkConfig found
                (propertyValue host appVersionName (readConfig host w).2).1 with
            | error err =>
                rw [hsuits] at h
                cases h
            | ok =>
                rw [hsuits] at h
                cases h
                exact ⟨⟨bytes, rfl, hconfig⟩, hsuits⟩
          case isFalse hother =>
            have hrefused : (readConfig host w).2.client.checkConfig found none =
                .error (.otherApp found.appId (readConfig host w).2.client.bundleId) :=
              if_pos hother
            rw [Step.bind_apply, Step.pure_apply] at h
            dsimp only at h
            rw [hrefused] at h
            cases h

/-- The world in which a start has begun. -/
def begun (w : World μ) : World μ := ⟨{ w.client with isStarting := true }, w.memory⟩

/-- A configuration passes everything that may refuse the start of a client: the properties are
complete, the file can be read and gives reason to trust it, and it suits the client. -/
structure Passes (host : Host μ) (w : World μ) (config : Config) : Prop where
  registered : (registerOwn host (begun w)).1 = .ok ()
  trusted : ∃ bytes, (readConfig host (registerOwn host (begun w)).2).1 = .ok bytes ∧
    w.client.Trusts bytes config
  suited : w.client.Suits config
    (propertyValue host appVersionName (readConfig host (registerOwn host (begun w)).2).2).1

theorem registerOwn_snd (host : Host μ) (w : World μ) :
    (registerOwn host w).2 =
      ⟨{ w.client with registry := withOwn w.client.registry (host.now w.memory).1 },
        (host.now w.memory).2⟩ := by
  rw [registerOwn_apply]

theorem passes_of_prepareStart {w : World μ} {config : Config}
    (h : (prepareStart host (begun w)).1 = .ok config) : Passes host w config := by
  rw [prepareStart, Step.bind_apply] at h
  cases hregistered : (registerOwn host (begun w)).1 with
  | error err =>
      rw [hregistered] at h
      cases h
  | ok =>
      rw [hregistered] at h
      obtain ⟨⟨bytes, hread, hconfig⟩, hcheck⟩ := checked_of_loadConfig h
      -- Neither reading nor checking a configuration depends on the registry of the client.
      rw [registerOwn_snd] at hconfig
      have hconfig' : w.client.configOf bytes = .ok config := hconfig
      have hcheck' : w.client.checkConfig config (propertyValue host appVersionName
          (readConfig host (registerOwn host (begun w)).2).2).1 = .ok () := by
        rw [← hcheck, registerOwn_snd]
        rfl
      exact ⟨hregistered, ⟨bytes, hread, trusts_of_configOf hconfig'⟩, suits_of_checkConfig hcheck'⟩

theorem prepareStart_afresh (w : World μ) : Afresh (prepareStart host w).1 := by
  rw [prepareStart, Step.bind_apply]
  cases hregistered : (registerOwn host w).1 with
  | error err =>
      rw [registerOwn_apply] at hregistered
      dsimp only at hregistered
      split at hregistered <;> cases hregistered
      exact .error (by simp)
  | ok => exact (loadConfig_keeps _ rfl).2

/-- What may refuse the start changes nothing but the client's own properties and its directory. -/
theorem prepareStart_client (host : Host μ) (w : World μ) :
    (prepareStart host w).2.client =
      { w.client with
        registry := withOwn w.client.registry (host.now w.memory).1,
        files := (prepareStart host w).2.client.files } := by
  have hkept : (prepareStart host w).2.client.withoutFiles =
      (registerOwn host w).2.client.withoutFiles := by
    rw [prepareStart, Step.bind_apply]
    cases (registerOwn host w).1 with
    | error err => rfl
    | ok => exact (loadConfig_keeps _ rfl).1
  rw [registerOwn_snd] at hkept
  exact eq_of_withoutFiles hkept

theorem prepareStart_withOwn (w : World μ) (t : Calendar.Instant) :
    prepareStart host ⟨{ w.client with registry := withOwn w.client.registry t }, w.memory⟩ =
      prepareStart host w := by
  have hsame : registerOwn host
      ⟨{ w.client with registry := withOwn w.client.registry t }, w.memory⟩ =
        registerOwn host w := by
    simp only [registerOwn_apply, withOwn_withOwn]
  rw [prepareStart, Step.bind_apply, Step.bind_apply, hsame]

end Targeting.Client
