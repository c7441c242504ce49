/-
# Configurations

What an app is configured with: named actions, triggers, conditions, themes and notifications,
sorted by name. A configuration that has been checked is closed: every action that something
in it runs is one of its actions. All of its conditions have been prepared.
-/

import Targeting.Config.Draft
import Targeting.Config.Error
import Targeting.Version

namespace Targeting

/-- A configuration. -/
structure Config where
  version : String
  appId : String
  minAppVersion : Option String
  minLibraryVersion : Option String
  minInternalVersion : Option String
  defaultTheme : Option String
  themes : List (String × Json)
  actions : List (String × GuardedAction)
  triggers : List (String × Trigger)
  conditions : List (String × Condition)
  notifications : List (String × Notification)
  deriving Repr

namespace Config

/-- A configuration without content, for an app that runs without a file. -/
def empty (appId : String) : Config :=
  ⟨"v1", appId, none, none, none, none, [], [], [], [], []⟩

/-- Payload of a theme. -/
def theme? (c : Config) (name : String) : Option Json := c.themes.lookup name

/-- A named action. -/
def action? (c : Config) (name : String) : Option GuardedAction := c.actions.lookup name

/-- A named condition. -/
def condition? (c : Config) (name : String) : Option Condition := c.conditions.lookup name

/-- A notification. -/
def notification? (c : Config) (id : String) : Option Notification := c.notifications.lookup id

/-- The triggers of an event, in order of their names. -/
def triggersFor (c : Config) (event : String) : List Trigger :=
  (c.triggers.map Prod.snd).filter fun trigger => trigger.event = event

/-- All notifications, in order of their identifiers. -/
def allNotifications (c : Config) : List Notification := c.notifications.map Prod.snd

/-- Every condition: named ones, those of actions, of triggers and of notifications. -/
def allConditions (c : Config) : List Condition :=
  c.conditions.map Prod.snd ++ c.actions.flatMap (fun (_, action) => action.conditions) ++
    c.triggers.flatMap (fun (_, trigger) => trigger.guard.toList) ++
    c.notifications.flatMap (fun (_, notification) => notification.conditions)

/-- Check the entries of a table. Answers those that pass and the first issue of the others. -/
def checkTable {α β : Type} (check : String → α → Except Issue β) :
    List (String × α) → List (String × β) × Option Issue
  | [] => ([], none)
  | (name, entry) :: rest =>
    let (passed, issue) := checkTable check rest
    match check name entry with
    | .ok checked => ((name, checked) :: passed, issue)
    | .error first => (passed, some first)

/-- Check an action by name. -/
def checkAction (engine : Condition.Engine) (name : String) (draft : ActionDraft) :
    Except Issue GuardedAction :=
  match GuardedAction.ofDraft engine draft with
  | .ok action => .ok action
  | .error issue => .error (.action name issue)

/-- Check a trigger by name. -/
def checkTrigger (engine : Condition.Engine) (name : String) (draft : TriggerDraft) :
    Except Issue Trigger :=
  match Trigger.ofDraft engine draft with
  | .ok trigger => .ok trigger
  | .error issue => .error (.trigger name issue)

/-- Check a condition by name. -/
def checkCondition (engine : Condition.Engine) (name source : String) : Except Issue Condition :=
  match (Condition.ofSource source).prepare engine with
  | (.ok (), condition) => .ok condition
  | (.error error, _) => .error (.condition name error)

/-- Check a notification by its identifier. -/
def checkNotification (engine : Condition.Engine) (id : String) (draft : NotificationDraft) :
    Except Issue Notification :=
  match Notification.ofDraft engine id draft with
  | .ok notification => .ok notification
  | .error issue => .error (.notification id issue)

/-- A minimum version has to be a version number. -/
def checkMinimum (field : String) (version : Option String) : Except Issue Unit :=
  match version with
  | none => .ok ()
  | some text =>
    if (Version.parse? text).isSome then .ok () else .error (.malformedVersion field text)

/-- The first trigger that runs an action that is not there. -/
def danglingTrigger (names : List String) (triggers : List (String × TriggerDraft)) :
    Option Issue :=
  triggers.findSome? fun (name, trigger) =>
    if trigger.action ≠ "" ∧ !names.contains trigger.action then
      some (.triggerTarget name trigger.action)
    else none

/-- The first action that names an action that is not there. -/
def danglingAction (names : List String) (actions : List (String × GuardedAction)) :
    Option Issue :=
  actions.findSome? fun (source, action) =>
    (action.action.embeddedNames.find? fun name => !names.contains name).map fun name =>
      .actionTarget source name

/-- The first notification that runs an action that is not there. -/
def danglingTap (names : List String) (notifications : List (String × Notification)) :
    Option Issue :=
  notifications.findSome? fun (id, notification) =>
    (notification.tapAction.filter fun name => !names.contains name).map fun name =>
      .tapTarget id name

/-- Whether a table has an entry without name. -/
def hasEmptyName {α : Type} (table : List (String × α)) : Bool :=
  table.any fun (name, _) => name = ""

/-- Refuse with an issue, if there is one. -/
def refuse : Option Issue → Except Issue Unit
  | some issue => .error issue
  | none => .ok ()

/-- Check a configuration. References between its parts are checked before the parts' own
issues are reported; actions that have issues still count as there. -/
def ofDraft (engine : Condition.Engine) (draft : ConfigDraft) : Except Issue Config := do
  if draft.version ≠ "v1" ∧ (Split.afterStart? "v1.".toList draft.version.toList).isNone then
    throw .version
  if draft.appId = "" then throw .noAppId
  let minAppVersion := nonEmpty draft.minAppVersion
  let minLibraryVersion := nonEmpty draft.minLibraryVersion
  let minInternalVersion := nonEmpty draft.minInternalVersion
  checkMinimum "minAppVersion" minAppVersion
  checkMinimum "minCMVersion" minLibraryVersion
  checkMinimum "minCMVersionInternal" minInternalVersion
  let (actions, actionIssue) := checkTable (checkAction engine) draft.actions
  let (triggers, triggerIssue) := checkTable (checkTrigger engine) draft.triggers
  let (conditions, conditionIssue) := checkTable (checkCondition engine) draft.conditions
  let (notifications, notificationIssue) :=
    checkTable (checkNotification engine) draft.notifications
  let names := draft.actions.map Prod.fst
  refuse (danglingTrigger names draft.triggers)
  refuse (danglingAction names actions)
  refuse (danglingTap names notifications)
  if hasEmptyName draft.actions ∨ hasEmptyName draft.themes ∨ hasEmptyName draft.triggers then
    throw .emptyName
  refuse (actionIssue <|> triggerIssue <|> conditionIssue <|> notificationIssue)
  pure {
    version := draft.version
    appId := draft.appId
    minAppVersion, minLibraryVersion, minInternalVersion
    defaultTheme := nonEmpty draft.defaultTheme
    themes := draft.themes
    actions, triggers, conditions, notifications }

/-- Read and check a configuration. -/
def ofJson (engine : Condition.Engine) (bytes : List UInt8) : Except Error Config :=
  match (Json.Written.parse? bytes).bind ConfigDraft.read? with
  | none => .error .unreadable
  | some draft =>
    match ofDraft engine draft with
    | .ok config => .ok config
    | .error issue => .error (.invalid issue)

/-- Whether a version is below a minimum. Texts that are no versions never are. -/
def isBelow (version minimum : String) : Bool := Version.comparesAs .lt version minimum

/-- Refuse a configuration that asks for a newer app or a newer library. -/
def checkVersions (c : Config) (app library : String) : Except Error Unit :=
  match c.minAppVersion.filter (isBelow app) with
  | some minimum => .error (.appTooOld app minimum)
  | none =>
    match (c.minLibraryVersion.toList ++ c.minInternalVersion.toList).find? (isBelow library) with
    | some minimum => .error (.libraryTooOld library minimum)
    | none => .ok ()

end Config

end Targeting
