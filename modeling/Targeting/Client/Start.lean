/-
# The start of a client

A client starts once. It registers the properties that it provides itself, refuses to start with
properties missing, loads its configuration and records the samples of the start. A start that
fails leaves the client as it was, apart from those properties and the cached file, and may be
tried again.
-/

import Targeting.Client.Act

namespace Targeting.Client

open Download (DownloadError)

variable {μ : Type}

/-- Version of the library. -/
def libraryVersion : String := "0.1.0"

/-- Name under which the configuration is cached. -/
def cachedName : String := "primary"

/-- Names of the properties that the client provides. -/
def appStartName : String := "app_start_time"
def sessionStartName : String := "session_start_time"

/-- Name of the property with the app's version. -/
def appVersionName : String := "app_version"

/-- Register the properties that the client provides, and check that all required ones are
there. -/
def registerOwn (host : Host μ) : Step μ Outcome := do
  let t ← now host
  let c ← current
  match c.registry.register appStartName (.fixed (.timestamp t)) with
  | (.error error, registry) => do
    change fun c => { c with registry := registry }
    pure (.error (.property error))
  | (.ok (), registry) =>
    let (result, registry) := registry.register sessionStartName .sessionStart
    change fun c => { c with registry := registry }
    match result with
    | .error error => pure (.error (.property error))
    | .ok () =>
      match registry.problems with
      | [] => pure (.ok ())
      | problems => pure (.error (.invalidProperties problems))

/-- The bytes of a file, which may not be readable. -/
def contentOf : Option (List UInt8) → Except ClientError (List UInt8)
  | some bytes => .ok bytes
  | none => .error .unreadableFile

/-- The bytes of the configuration file, from a file or from the cache. -/
def readConfig (host : Host μ) : Step μ (Except ClientError (List UInt8)) := do
  let c ← current
  match Settings.filePath? c.configUrl with
  | some path => do
    let content ← ask (host.file path)
    pure (contentOf content)
  | none => do
    let nonce ← ask host.random
    let (result, files) ←
      ask (Download.fetch host.web c.files c.configUrl nonce.toNatClampNeg cachedName)
    change fun c => { c with files := files }
    match result with
    | .error error => pure (.error (.download error))
    | .ok file => pure (contentOf (files.read? file))

/-- The bytes without ASCII blanks around them. -/
def trimmed (bytes : List UInt8) : List UInt8 :=
  let isBlank := fun (b : UInt8) => b = 9 || b = 10 || b = 12 || b = 13 || b = 32
  ((bytes.dropWhile isBlank).reverse.dropWhile isBlank).reverse

/-- The configuration in a file: one that is signed, one without content, or an unsigned one if
that is allowed and the file is not from the web. -/
def configOf (c : Client) (bytes : List UInt8) : Except Config.Error Config :=
  match Config.ofContainer c.verifier c.engine bytes with
  | .ok config => .ok config
  | .error error =>
    if trimmed bytes = "\x7b\x7d".toUTF8.toList then .ok (Config.empty c.bundleId)
    else if c.allowDebugLoad && (Settings.filePath? c.configUrl).isSome then
      Config.ofJson c.engine bytes
    else .error error

/-- Check that a configuration is for the app, and not for later versions of it or of the
library. -/
def checkConfig (c : Client) (config : Config) (appVersion : Option PropertyValue) :
    Except Config.Error Unit :=
  if config.appId ≠ c.bundleId then .error (.otherApp config.appId c.bundleId)
  else
    let version := match appVersion with
      | some (.text version) => version
      | _ => ""
    config.checkVersions version libraryVersion

/-- Load the configuration. -/
def loadConfig (host : Host μ) : Step μ (Except ClientError Config) := do
  let content ← readConfig host
  match content with
  | .error error => pure (.error error)
  | .ok bytes => do
    let c ← current
    match c.configOf bytes with
    | .error error => pure (.error (.config error))
    | .ok config => do
      let appVersion ←
        if config.appId = c.bundleId then propertyValue host appVersionName else pure none
      match c.checkConfig config appVersion with
      | .error error => pure (.error (.config error))
      | .ok () => pure (.ok config)

/-- Everything that may refuse the start. -/
def prepareStart (host : Host μ) : Step μ (Except ClientError Config) := do
  let registered ← registerOwn host
  match registered with
  | .error error => pure (.error error)
  | .ok () => loadConfig host

/-- Record the properties that are recorded at every start. -/
def sampleStart (host : Host μ) : Step μ Unit := do
  let samples ← inSurroundings fun c s => c.registry.startSamples (answers host c.sessionStart) s
  recordSamples host (samples.map fun (name, value) => (name, value, .appStart))

/-- Take over a configuration: from now on the client records events. -/
def install (host : Host μ) (config : Config) : Step μ Unit := do
  change fun c => { c with config := some config }
  sampleStart host
  change fun c => { c with isStarted := true }

/-- Record the start, and plan notifications if the event has not done so already. -/
def announce (host : Host μ) (steps : Nat) : Act μ Outcome := do
  let _ ← process host steps (.builtIn .appStart)
  let c ← current
  if c.plan.isNone then updatePlan host
  pure (.ok ())

/-- Start a client, whatever it has been through. -/
def startAfresh (host : Host μ) (steps : Nat) : Act μ Outcome := do
  let prepared ← prepareStart host
  match prepared with
  | .error error => pure (.error error)
  | .ok config => do
    install host config
    announce host steps

/-- Start a client, unless a start is under way or has succeeded. -/
def start (host : Host μ) (steps : Nat) : Act μ Outcome := do
  let c ← current
  if c.isStarting then pure (.error .alreadyStarted)
  else do
    change fun c => { c with isStarting := true }
    let outcome ← startAfresh host steps
    match outcome with
    | .ok () => pure (.ok ())
    | .error error => do
      change fun c => { c with isStarting := false }
      pure (.error error)

end Targeting.Client
