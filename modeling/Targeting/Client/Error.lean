/-
# What can go wrong in a client

The errors of all parts of the library, and those of the client itself.
-/

import Targeting.Config.Error
import Targeting.Download.Cache
import Targeting.Property.Registry
import Targeting.Signing.ApiKey

namespace Targeting

/-- What is looked up by name in a configuration. -/
inductive Lookup where
  | action | condition
  deriving Repr, DecidableEq

/-- Name of what is looked up. -/
def Lookup.name : Lookup → String
  | action => "action"
  | condition => "condition"

/-- Settings that a client cannot do without. -/
inductive Setting where
  | configUrl | dataDirectory | verifier
  deriving Repr, DecidableEq

/-- Name of a setting. -/
def Setting.name : Setting → String
  | configUrl => "config URL"
  | dataDirectory => "data directory"
  | verifier => "verifier"

/-- Why a client refuses or fails. -/
inductive ClientError where
  | condition (error : Condition.Error)
  | config (error : Config.Error)
  | property (error : PropertyError)
  | event (error : EventError)
  | store (error : StoreError)
  | apiKey (error : ApiKeyError)
  | download (error : Download.DownloadError)
  /-- A file cannot be read. -/
  | unreadableFile
  /-- The URL of the configuration is of another scheme. -/
  | unsupportedUrl
  | missing (setting : Setting)
  | notFound (kind : Lookup) (name : String)
  | invalidProperties (problems : List String)
  | notStarted
  | alreadyStarted
  /-- The host failed to present an action. -/
  | action (name message : String)
  deriving Repr, DecidableEq

/-- Text of an error. -/
def ClientError.message : ClientError → String
  | condition error => error.message
  | config error => error.message
  | property error => error.message
  | event error => error.message
  | store error => error.message
  | apiKey error => error.message
  | download error => error.message
  | unreadableFile => "the config file can't be read"
  | unsupportedUrl => Download.DownloadError.malformedUrl.message
  | missing setting => "a " ++ setting.name ++ " must be provided before starting critical moments"
  | notFound kind name => "no " ++ kind.name ++ " found named '" ++ name ++ "'"
  | invalidProperties problems => "invalid properties: " ++ "; ".intercalate problems
  | notStarted => "client not started"
  | alreadyStarted => "client already started. Start should only be called once"
  | action name message => "action \"" ++ name ++ "\" failed: " ++ message

end Targeting
