/-
# Clients

A client belongs to an app. It is made from settings, which are checked in order, over the data
directory of the app. It starts with a configuration, records what happens and keeps a plan of
notifications.
-/

import Targeting.Client.Error
import Targeting.Config.Container
import Targeting.Notification.Plan

namespace Targeting

open Calendar (Instant)

/-- What an app keeps between its runs: files and the ledger. -/
structure DataDirectory where
  files : Download.Directory
  ledger : Ledger
  deriving Repr, DecidableEq

/-- Settings of a client. -/
structure Settings where
  apiKey : String
  bundleId : String
  configUrl : Option String
  dataDirectory : Option DataDirectory
  verifier : Option SigningKey
  mode : Condition.Mode
  /-- Least age, in microseconds, of all samples of a property when one is recorded on use. -/
  sampleInterval : Int
  /-- Microseconds in the background after which the app's return begins a session. -/
  sessionGap : Int
  /-- Whether unsigned configurations are accepted from files. -/
  allowDebugLoad : Bool

/-- A client. -/
structure Client where
  bundleId : String
  configUrl : String
  verifier : SigningKey
  engine : Condition.Engine
  sessionGap : Int
  allowDebugLoad : Bool
  files : Download.Directory
  store : Store
  registry : Registry
  /-- The active configuration. -/
  config : Option Config
  /-- Whether a start is under way or has succeeded. -/
  isStarting : Bool
  /-- Whether the client has its configuration and records events. -/
  isStarted : Bool
  /-- When the session began, if one has begun in this run. -/
  sessionStart : Option Instant
  /-- The latest plan of notifications. -/
  plan : Option Plan
  /-- The random number of this run. -/
  sessionRandom : Int64

namespace Settings

/-- Ten minutes. -/
def defaultSessionGap : Int := 600 * 1000000

/-- Settings of an app with nothing provided. -/
def forApp (apiKey bundleId : String) : Settings where
  apiKey := apiKey
  bundleId := bundleId
  configUrl := none
  dataDirectory := none
  verifier := none
  mode := .lenient
  sampleInterval := Store.defaultInterval
  sessionGap := defaultSessionGap
  allowDebugLoad := false

/-- What the URLs of files start with. -/
def fileStart : String := "file://"

/-- What the URLs of secure hosts start with. -/
def secureStart : String := "https://"

/-- The path of a file's URL. -/
def filePath? (url : String) : Option String :=
  (Split.afterStart? fileStart.toList url.toList).map String.ofList

/-- Say where the configuration is: a file or a secure host. -/
def withConfigUrl (s : Settings) (url : String) : Except ClientError Settings :=
  if (filePath? url).isSome || (Split.afterStart? secureStart.toList url.toList).isSome then
    .ok { s with configUrl := some url }
  else .error .unsupportedUrl

/-- Say who signs API keys and configurations. Only the public half is kept. -/
def withVerifier (s : Settings) (key : SigningKey) : Settings :=
  { s with verifier := some key.publicOnly }

/-- Check that an API key was issued for the app. -/
def checkApiKey (s : Settings) (verifier : SigningKey) : Except ApiKeyError Unit :=
  match ApiKey.parse? s.apiKey with
  | none => .error .invalid
  | some key => key.check s.bundleId verifier

/-- Make a client, with the random number of its run. The store is started at once. -/
def client (s : Settings) (sessionRandom : Int64) (now : Instant) : Except ClientError Client :=
  match s.verifier with
  | none => .error (.missing .verifier)
  | some verifier =>
    match s.checkApiKey verifier, s.configUrl, s.dataDirectory with
    | .error error, _, _ => .error (.apiKey error)
    | .ok (), none, _ => .error (.missing .configUrl)
    | .ok (), some _, none => .error (.missing .dataDirectory)
    | .ok (), some url, some directory =>
      match (Store.ofLedger s.sampleInterval directory.ledger).start
          directory.files.entries.isSome now with
      | (.error error, _) => .error (.store error)
      | (.ok (), store) => .ok {
          bundleId := s.bundleId
          configUrl := url
          verifier := verifier
          engine := ⟨s.mode, []⟩
          sessionGap := s.sessionGap
          allowDebugLoad := s.allowDebugLoad
          files := directory.files
          store := store
          registry := .empty
          config := none
          isStarting := false
          isStarted := false
          sessionStart := none
          plan := none
          sessionRandom := sessionRandom }

end Settings

/-- The data directory as the client leaves it. -/
def Client.dataDirectory (c : Client) : DataDirectory := ⟨c.files, c.store.ledger⟩

end Targeting
