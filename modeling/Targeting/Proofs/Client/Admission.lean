/-
# Starting is all or nothing

A client takes over a configuration only after everything that may refuse it. If anything does, the
client is as before, apart from its own properties and the cached file, and the next start runs as
if there had been none. After a start that is not refused the configuration stays, and no further
start does anything, whatever the app has asked of the client in between.
-/

import Targeting.Proofs.Client.Calls
import Targeting.Proofs.Client.Preparation

namespace Targeting

variable {μ : Type}

namespace Settings

theorem checkApiKey_eq_ok {s : Settings} {verifier : SigningKey}
    (h : (s.checkApiKey verifier).isOk) : s.checkApiKey verifier = .ok () := by
  revert h
  generalize s.checkApiKey verifier = checked
  intro h
  cases checked with
  | error err => cases h
  | ok _ => rfl

/-- A client is made of settings with an API key that was issued for the app. -/
theorem client_eq_ok {s : Settings} {verifier : SigningKey} {url : String}
    {directory : DataDirectory} {random : Int64} {t : Calendar.Instant} {store : Store}
    (hverifier : s.verifier = some verifier) (hkey : s.checkApiKey verifier = .ok ())
    (hurl : s.configUrl = some url) (hdirectory : s.dataDirectory = some directory)
    (hstore : (Store.ofLedger s.sampleInterval directory.ledger).start
      directory.files.entries.isSome t = (.ok (), store)) :
    s.client random t = .ok
      { bundleId := s.bundleId, configUrl := url, verifier := verifier, engine := ⟨s.mode, []⟩
        sessionGap := s.sessionGap, allowDebugLoad := s.allowDebugLoad, files := directory.files
        store := store, registry := .empty, config := none, isStarting := false
        isStarted := false, sessionStart := none, plan := none, sessionRandom := random } := by
  rw [client, hverifier]
  dsimp only
  rw [hkey, hurl, hdirectory]
  dsimp only
  rw [hstore]

end Settings

namespace Client

variable {host : Host μ} {steps : Nat}

/-! ## Starts -/

theorem start_run_of_isStarting {w : World μ} (h : w.client.isStarting) :
    (start host steps).run w = (some (.error .alreadyStarted), w) := by
  have hstart : (start host steps).run w =
      (if w.client.isStarting then pure (.error .alreadyStarted) else _ : Act μ Outcome).run w :=
    rfl
  rw [hstart, if_pos h]
  rfl

theorem start_run_of_not_isStarting {w : World μ} (h : w.client.isStarting = false) :
    (start host steps).run w =
      match (startAfresh host steps).run (begun w) with
      | (some (.ok ()), w') => (some (.ok ()), w')
      | (some (.error err), w') =>
        (some (.error err), ⟨{ w'.client with isStarting := false }, w'.memory⟩)
      | (none, w') => (none, w') := by
  have hstart : (start host steps).run w =
      (if w.client.isStarting then pure (.error .alreadyStarted) else _ : Act μ Outcome).run w :=
    rfl
  rw [hstart, if_neg (by simp [h])]
  change (startAfresh host steps >>= _ : Act μ Outcome).run (begun w) = _
  rw [Act.run_bind_apply]
  rcases (startAfresh host steps).run (begun w) with ⟨_ | _ | _, w'⟩ <;> rfl

theorem startAfresh_run (w : World μ) :
    (startAfresh host steps).run w =
      match prepareStart host w with
      | (.error err, w') => (some (.error err), w')
      | (.ok config, w') => (announce host steps).run (install host config w').2 := by
  rw [startAfresh, Act.run_step_apply]
  rcases prepareStart host w with ⟨_ | _, w'⟩ <;> rfl

theorem announce_keeps {k : Client} :
    Act.Keeps standing k (fun ended => ended = some (.ok ()) ∨ ended = none)
      (announce host steps) := by
  have hprocess : Act.Keeps standing k (fun _ => True) (process host steps (.builtIn .appStart)) :=
    (keeps_standing steps).1 _
  refine hprocess.bind (fun _ => .inr rfl) fun _ _ => .step .current fun c _ => ?_
  split
  · exact .step updatePlan_keeps fun _ _ => .pure (.inl rfl)
  · exact .pure (.inl rfl)

theorem sampleStart_keeps {k : Client} :
    Step.Keeps standing k (fun _ => True) (sampleStart host) :=
  (Step.Keeps.inSurroundings (fun _ _ => rfl) _).bind fun _ _ => recordSamples_keeps _

theorem install_standing (host : Host μ) (config : Config) (w : World μ) :
    (install host config w).2.client.standing =
      ({ w.client with config := some config, isStarted := true } : Client).standing := by
  let w₁ : World μ := ⟨{ w.client with config := some config }, w.memory⟩
  have hkept : (sampleStart host w₁).2.client.standing = w₁.client.standing :=
    (sampleStart_keeps w₁ rfl).1
  exact congrArg (fun c : Client => { c with isStarted := true }) hkept

/-- A start that was refused has left nothing behind but the client's own properties and what is in
its directory. -/
structure Refused (w w' : World μ) : Prop where
  client : ∃ t, w'.client =
    { w.client with registry := withOwn w.client.registry t, files := w'.client.files }
  /-- Neither an event nor a sample was recorded. -/
  store : w'.client.store = w.client.store
  idle : w'.client.IsIdle
  /-- The next start runs as if this one had never been. -/
  afresh : ∀ (host : Host μ) (steps : Nat), (start host steps).run w' =
    (start host steps).run ⟨{ w.client with files := w'.client.files }, w'.memory⟩

/-- A start only depends on what may refuse it. -/
theorem start_run_congr {w w' : World μ} (hw : w.client.isStarting = false)
    (hw' : w'.client.isStarting = false)
    (h : prepareStart host (begun w) = prepareStart host (begun w')) :
    (start host steps).run w = (start host steps).run w' := by
  rw [start_run_of_not_isStarting hw, start_run_of_not_isStarting hw', startAfresh_run,
    startAfresh_run, h]

theorem refused_of_prepareStart {w w₁ : World μ} {err : ClientError} (h : w.client.IsIdle)
    (hprepare : prepareStart host (begun w) = (.error err, w₁)) :
    Refused w ⟨{ w₁.client with isStarting := false }, w₁.memory⟩ := by
  have hstarting : w.client.isStarting = false := (Prod.mk.inj h).1
  have hkept := prepareStart_client host (begun w)
  rw [hprepare] at hkept
  have hclient : ({ w₁.client with isStarting := false } : Client) =
      { w.client with
        registry := withOwn w.client.registry (host.now w.memory).1,
        files := w₁.client.files } := by
    rw [hkept, begun, ← hstarting]
  have hstore := congrArg store hclient
  have hphase := congrArg phase hclient
  refine ⟨⟨_, hclient⟩, hstore, hphase.trans h, fun host' steps => ?_⟩
  rw [hclient]
  let w₂ : World μ := ⟨{ w.client with files := w₁.client.files }, w₁.memory⟩
  exact start_run_congr hstarting hstarting (prepareStart_withOwn (begun w₂) (host.now w.memory).1)

/-- What is installed is there to stay while the start is announced. -/
theorem isUp_of_announce {w : World μ} (hstarting : w.client.isStarting) (config : Config)
    {ended : Option Outcome} {w' : World μ}
    (hrun : (announce host steps).run (install host config w).2 = (ended, w')) :
    (ended = some (.ok ()) ∨ ended = none) ∧ w'.client.IsUp config := by
  have hkept : Act.Keeps standing (install host config w).2.client.standing _
      (announce host steps) := announce_keeps
  obtain ⟨hstanding, hended⟩ := hkept _ rfl
  rw [install_standing] at hstanding
  rw [hrun] at hstanding hended
  have hphase := congrArg phase hstanding
  refine ⟨hended, hphase.trans ?_⟩
  change (w.client.isStarting, true, some config) = _
  rw [hstarting]

/-- A start of an idle client is refused and leaves nothing behind, or has a configuration that
passes everything and is up with it. -/
theorem start_of_isIdle {w : World μ} (h : w.client.IsIdle) {ended : Option Outcome} {w' : World μ}
    (hrun : (start host steps).run w = (ended, w')) :
    (∃ err, err ≠ .alreadyStarted ∧ ended = some (.error err) ∧ Refused w w') ∨
      (ended = some (.ok ()) ∨ ended = none) ∧
        ∃ config, Passes host w config ∧ w'.client.IsUp config := by
  rw [start_run_of_not_isStarting (Prod.mk.inj h).1, startAfresh_run] at hrun
  rcases hprepare : prepareStart host (begun w) with ⟨err | config, w₁⟩
  · have hafresh : Afresh (prepareStart host (begun w)).1 := prepareStart_afresh _
    rw [hprepare] at hrun hafresh
    cases hrun
    exact .inl ⟨err, hafresh err rfl, rfl, refused_of_prepareStart h hprepare⟩
  · have hpasses : Passes host w config := passes_of_prepareStart (by rw [hprepare])
    have hstarting : w₁.client.isStarting := by
      have hkept := prepareStart_client host (begun w)
      rw [hprepare] at hkept
      exact congrArg isStarting hkept
    rw [hprepare] at hrun
    dsimp only at hrun
    rcases hannounce : (announce host steps).run (install host config w₁).2 with ⟨ended', w₂⟩
    obtain ⟨hended, hup⟩ := isUp_of_announce hstarting config hannounce
    rw [hannounce] at hrun
    obtain rfl | rfl := hended <;> cases hrun
    · exact .inr ⟨.inl rfl, config, hpasses, hup⟩
    · exact .inr ⟨.inr rfl, config, hpasses, hup⟩

theorem start_run_of_isUp {w : World μ} {config : Config} (h : w.client.IsUp config) :
    (start host steps).run w = (some (.error .alreadyStarted), w) :=
  start_run_of_isStarting (Prod.mk.inj h).1

/-- A client that is up stays up with the same configuration. -/
theorem isUp_of_reaches {w w' : World μ} (hreaches : Reaches w w') {config : Config}
    (h : w.client.IsUp config) : w'.client.IsUp config := by
  induction hreaches with
  | refl => exact h
  | tail _ hcall ih =>
      obtain ⟨host, steps, call, rfl⟩ := hcall
      by_cases hstart : call = .start
      · subst hstart
        rw [Call.run, start_run_of_isUp ih]
        exact ih
      · exact (phase_run hstart _).trans ih

/-- A client that was idle is idle or up. -/
theorem isIdle_or_isUp_of_reaches {w w' : World μ} (hreaches : Reaches w w')
    (h : w.client.IsIdle) : w'.client.IsIdle ∨ ∃ config, w'.client.IsUp config := by
  induction hreaches with
  | refl => exact .inl h
  | tail _ hcall ih =>
      obtain ⟨host, steps, call, rfl⟩ := hcall
      by_cases hstart : call = .start
      · subst hstart
        obtain hidle | ⟨config, hup⟩ := ih
        · obtain ⟨err, -, -, hrefused⟩ | ⟨-, config, -, hup⟩ := start_of_isIdle hidle rfl
          · exact .inl hrefused.idle
          · exact .inr ⟨config, hup⟩
        · refine .inr ⟨config, ?_⟩
          rw [Call.run, start_run_of_isUp hup]
          exact hup
      · obtain hidle | ⟨config, hup⟩ := ih
        · exact .inl ((phase_run hstart _).trans hidle)
        · exact .inr ⟨config, (phase_run hstart _).trans hup⟩

/-- A client that has just been made is idle. -/
theorem isIdle_of_settings {settings : Settings} {random : Int64} {t : Calendar.Instant}
    {c : Client} (h : settings.client random t = .ok c) : c.IsIdle := by
  unfold Settings.client at h
  split at h
  case h_1 => cases h
  case h_2 =>
    split at h
    case h_4 =>
      split at h <;> cases h
      rfl
    all_goals cases h

theorem start_ne_alreadyStarted {w : World μ} (h : w.client.IsIdle) :
    ((start host steps).run w).1 ≠ some (.error .alreadyStarted) := by
  rcases hrun : (start host steps).run w with ⟨ended, w'⟩
  obtain ⟨err, hne, rfl, -⟩ | ⟨rfl | rfl, -⟩ := start_of_isIdle h hrun
  · intro herr
    cases herr
    exact hne rfl
  · simp
  · simp

/-- Starting is all or nothing, whatever the app has asked of a client since it was made. A client
that has started refuses to start and does nothing, whatever happens afterwards. Any other client
either refuses for another reason, has no configuration, has recorded nothing, and starts afresh the
next time; or it is up with a configuration that it has read and that has passed everything. Its
start has succeeded then, unless the events that the start sets off have no end. -/
theorem start_all_or_nothing {settings : Settings} {random : Int64} {t : Calendar.Instant}
    {c : Client} (hmade : settings.client random t = .ok c) {memory : μ} {w : World μ}
    (hreaches : Reaches ⟨c, memory⟩ w) (host : Host μ) (steps : Nat) {ended : Option Outcome}
    {w' : World μ} (hrun : (start host steps).run w = (ended, w')) :
    (w.client.isStarted ∧ ended = some (.error .alreadyStarted) ∧ w' = w) ∨
    (w.client.IsIdle ∧ (∃ err, err ≠ .alreadyStarted ∧ ended = some (.error err)) ∧ Refused w w' ∧
      ∀ (host : Host μ) (steps : Nat),
        ((start host steps).run w').1 ≠ some (.error .alreadyStarted)) ∨
    (w.client.IsIdle ∧ (ended = some (.ok ()) ∨ ended = none) ∧
      (∃ config, Passes host w config ∧ w'.client.IsUp config) ∧
      ∀ w'', Reaches w' w'' → ∀ (host : Host μ) (steps : Nat),
        (start host steps).run w'' = (some (.error .alreadyStarted), w'')) := by
  obtain hidle | ⟨config, hup⟩ := isIdle_or_isUp_of_reaches hreaches (isIdle_of_settings hmade)
  · obtain hrefused | ⟨hended, config, hpasses, hup⟩ := start_of_isIdle hidle hrun
    · obtain ⟨err, hne, hended, hnothing⟩ := hrefused
      exact .inr (.inl ⟨hidle, ⟨err, hne, hended⟩, hnothing, fun host steps =>
        start_ne_alreadyStarted hnothing.idle⟩)
    · exact .inr (.inr ⟨hidle, hended, ⟨config, hpasses, hup⟩, fun w'' hlater host steps =>
        start_run_of_isUp (isUp_of_reaches hlater hup)⟩)
  · rw [start_run_of_isUp hup] at hrun
    cases hrun
    exact .inl ⟨(Prod.mk.inj (Prod.mk.inj hup).2).1, rfl, rfl⟩

/-- Settings of an app with a local file, and an API key for it. -/
def trial : Settings where
  apiKey := "CM1-Yjph-MEUCIHLnm8dMpm3APrN40gVxm4DC1r+85B46clTEAm1QhDG7AiEArJ+HLln/icna8QfyqL58" ++
    "tEHvAeK91h7LFT//QTDzIR4="
  bundleId := "a"
  configUrl := some "file://config"
  dataDirectory := some ⟨.empty, .empty⟩
  verifier := some ⟨Curve.generator, none⟩
  mode := .lenient
  sampleInterval := Store.defaultInterval
  sessionGap := Settings.defaultSessionGap
  allowDebugLoad := false

/-- The client for those settings. -/
def trialClient : Client where
  bundleId := "a"
  configUrl := "file://config"
  verifier := ⟨Curve.generator, none⟩
  engine := ⟨.lenient, []⟩
  sessionGap := Settings.defaultSessionGap
  allowDebugLoad := false
  files := .empty
  store := ⟨Store.defaultInterval, .empty, .started⟩
  registry := .empty
  config := none
  isStarting := false
  isStarted := false
  sessionStart := none
  plan := none
  sessionRandom := 0

theorem client_trial : trial.client 0 ⟨0⟩ = .ok trialClient := by
  have hkey : (trial.checkApiKey ⟨Curve.generator, none⟩).isOk := by decide +kernel
  exact Settings.client_eq_ok rfl (Settings.checkApiKey_eq_ok hkey) rfl rfl rfl

/-- A host whose files have no content but braces. -/
def trialHost : Host Unit :=
  { Host.quiet with file := fun _ memory => (some "\x7b\x7d".toUTF8.toList, memory) }

/-- The app registers the required properties. -/
def registrations : List Call :=
  (Catalog.all.filter fun entry => entry.2.requirement = .required).map fun entry =>
    .register entry.1 (.app entry.2.kind)

/-- Whether a start succeeded, if it came to an end. -/
def succeeded (ended : Option Outcome) : Option Bool := ended.map fun outcome => outcome.isOk

/-- An app that starts its client before it has registered the required properties is refused,
succeeds after it has, and is refused again. -/
theorem second_start_succeeds : ∃ (c : Client) (w₁ w₂ w₃ : World Unit),
    trial.client 0 ⟨0⟩ = .ok c ∧ ((start trialHost 3).run ⟨c, ()⟩).2 = w₁ ∧
      Refused ⟨c, ()⟩ w₁ ∧ Reaches w₁ w₂ ∧
      (start trialHost 3).run w₂ = (some (.ok ()), w₃) ∧ (∃ config, w₃.client.IsUp config) ∧
      (start trialHost 3).run w₃ = (some (.error .alreadyStarted), w₃) := by
  have hruns : succeeded ((start trialHost 3).run (registrations.foldl
      (fun w call => call.run trialHost 3 w) (Call.start.run trialHost 3 ⟨trialClient, ()⟩))).1 =
        some true := by decide +kernel
  have hmade := client_trial
  generalize trialClient = c at hmade hruns
  have hlater := reaches_foldl trialHost 3 registrations (Call.start.run trialHost 3 ⟨c, ()⟩)
  generalize registrations.foldl (fun w call => call.run trialHost 3 w)
    (Call.start.run trialHost 3 ⟨c, ()⟩) = w₂ at hruns hlater
  rcases hfirst : (start trialHost 3).run ⟨c, ()⟩ with ⟨ended₁, w₁⟩
  rcases hsecond : (start trialHost 3).run w₂ with ⟨ended₂, w₃⟩
  rw [Call.run, hfirst] at hlater
  rw [hsecond] at hruns
  have hreaches : Reaches ⟨c, ()⟩ w₁ :=
    .single ⟨trialHost, 3, .start, by rw [Call.run, hfirst]⟩
  obtain ⟨-, rfl, -⟩ | ⟨-, ⟨err, -, rfl⟩, -, -⟩ | ⟨-, rfl | rfl, ⟨config, -, hup⟩, hforever⟩ :=
    start_all_or_nothing hmade (hreaches.trans hlater) trialHost 3 hsecond
  case inr.inr.inl =>
    obtain ⟨hstarted, -⟩ | ⟨-, -, hrefused, -⟩ | ⟨-, -, -, hnever⟩ :=
      start_all_or_nothing hmade .refl trialHost 3 hfirst
    · rw [(Prod.mk.inj (Prod.mk.inj (isIdle_of_settings hmade)).2).1] at hstarted
      cases hstarted
    · exact ⟨c, w₁, w₂, w₃, hmade, by rw [hfirst], hrefused, hlater, hsecond, ⟨config, hup⟩,
        hforever w₃ .refl trialHost 3⟩
    · -- Had the first start succeeded, the second one would have been refused.
      rw [hnever w₂ hlater trialHost 3] at hsecond
      cases hsecond
  all_goals simp [succeeded, Except.isOk, Except.toBool] at hruns

end Client

end Targeting
