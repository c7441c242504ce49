/-
# What can be wrong with a configuration

A configuration file may not be signed as it should, may be no JSON of the right shape, may
contradict itself, or may be meant for another app or other versions. The descriptions are for
the author of the file.
-/

import Targeting.Config.Action
import Targeting.Notification.Check

namespace Targeting.Config

/-- How a configuration contradicts itself. -/
inductive Issue where
  | version
  | noAppId
  | malformedVersion (field text : String)
  | triggerTarget (trigger action : String)
  | actionTarget (source action : String)
  | tapTarget (notification action : String)
  | emptyName
  | action (name : String) (issue : ActionIssue)
  | trigger (name : String) (issue : TriggerIssue)
  | condition (name : String) (error : Condition.Error)
  | notification (id : String) (issue : NotificationIssue)
  deriving Repr, DecidableEq

/-- What is wrong with a named part. -/
def nestedMessage (part name issue : String) : String :=
  part ++ " \"" ++ name ++ "\" had issue: " ++ issue

/-- Description of an issue. -/
def Issue.message : Issue → String
  | version => "Config must have a config version of v1"
  | noAppId => "Config must have an appId"
  | malformedVersion field text => "Config had invalid " ++ field ++ ": " ++ text
  | triggerTarget name target =>
    "Trigger \"" ++ name ++ "\" included named action \"" ++ target ++ "\", which doesn't exist"
  | actionTarget name target =>
    "Action \"" ++ name ++ "\" specified named action \"" ++ target ++ "\", which doesn't exist"
  | tapTarget id target =>
    "Notification '" ++ id ++ "' has action name '" ++ target ++ "', which does not exist"
  | emptyName => "The empty string \"\" is not a valid name for actions/themes/triggers"
  | action name issue => nestedMessage "Action" name issue.message
  | trigger name issue => nestedMessage "Trigger" name issue.message
  | condition name error => nestedMessage "Condition" name error.message
  | notification id issue => nestedMessage "Notification" id issue.message

/-- What can be wrong with a configuration file. -/
inductive Error where
  | notSigned
  | noConfigBlock
  | unsupportedVersion (text : String)
  | noSignature
  | wrongSignature
  | unreadable
  | invalid (issue : Issue)
  | otherApp (configApp app : String)
  | appTooOld (version minimum : String)
  | libraryTooOld (version minimum : String)
  deriving Repr, DecidableEq

/-- What is said about a version below a minimum. -/
def tooOldMessage (what version minimum : String) : String :=
  "this version of the " ++ what ++ " (" ++ version ++ ") is too old for this config file. " ++
    "The minimum version is " ++ minimum

/-- Description of an error. -/
def Error.message : Error → String
  | notSigned => "Config file not signed: no valid CM block found in config file"
  | noConfigBlock => "No CONFIG block found in config file"
  | unsupportedVersion text => "Unsupported container version: " ++ text
  | noSignature =>
    "Missing Config Signature. Please sign your config at https://criticalmoments.io"
  | wrongSignature =>
    "Configuration file invalid. The signature does not match the JSON body. " ++
      "Please re-sign your config at https://criticalmoments.io"
  | unreadable => "Unable to parse config -- invalid json: unexpected shape"
  | invalid issue => issue.message
  | otherApp configApp app =>
    "this config file isn't valid for this app. Config file is for app id '" ++ configApp ++
      "', but this app has bundle ID '" ++ app ++ "'"
  | appTooOld version minimum => tooOldMessage "App" version minimum
  | libraryTooOld version minimum => tooOldMessage "CM SDK" version minimum

end Targeting.Config
