/-
# Configurations as they are written

The fields of a configuration before anything in them is checked. Tables are sorted by name.
-/

import Targeting.Config.Action
import Targeting.Notification.Draft

namespace Targeting

/-- A configuration, as written. -/
structure ConfigDraft where
  version : String
  appId : String
  minAppVersion : Option String
  minLibraryVersion : Option String
  minInternalVersion : Option String
  defaultTheme : Option String
  themes : List (String × Json)
  actions : List (String × ActionDraft)
  triggers : List (String × TriggerDraft)
  conditions : List (String × String)
  notifications : List (String × NotificationDraft)
  deriving Repr

namespace ConfigDraft

open Json (Written optional field)

/-- Names of the fields, in order. -/
def names : List String :=
  ["configVersion", "appId", "minAppVersion", "minCMVersion", "minCMVersionInternal", "themes",
    "actions", "triggers", "conditions", "notifications"]

/-- How deeply payloads may be nested, below the given number of levels. -/
def depthBelow (levels : Nat) : Nat := Json.maxDepth - levels

/-- Read a section that holds one table. -/
def section? {α : Type} (name : String) (read : Written → Option α) (json : Written) :
    Option (List (String × α)) := do
  let fields ← json.record? [name] 0
  field fields name [] (Written.table? read)

/-- Read the section of themes: the name of the default theme, and a table. -/
def themes? (json : Written) : Option (Option String × List (String × Json)) := do
  let fields ← json.record? ["defaultThemeName", "namedThemes"] 0
  let defaultTheme ← optional fields "defaultThemeName" Written.text?
  let themes ← field fields "namedThemes" []
    (Written.table? (Written.value? (depthBelow 3)))
  some (defaultTheme, themes)

/-- Read a configuration. -/
def read? (json : Written) : Option ConfigDraft := do
  let fields ← json.record? names 0
  let version ← field fields "configVersion" "" Written.text?
  let appId ← field fields "appId" "" Written.text?
  let minAppVersion ← optional fields "minAppVersion" Written.text?
  let minLibraryVersion ← optional fields "minCMVersion" Written.text?
  let minInternalVersion ← optional fields "minCMVersionInternal" Written.text?
  let themes ← optional fields "themes" themes?
  let actions ← optional fields "actions"
    (section? "namedActions" (ActionDraft.read? (depthBelow 4)))
  let triggers ← optional fields "triggers" (section? "namedTriggers" TriggerDraft.read?)
  let conditions ← optional fields "conditions" (section? "namedConditions" Written.text?)
  let notifications ← optional fields "notifications" (Written.table? NotificationDraft.read?)
  let (defaultTheme, themes) := themes.getD (none, [])
  some {
    version, appId, minAppVersion, minLibraryVersion, minInternalVersion, defaultTheme, themes
    actions := actions.getD []
    triggers := triggers.getD []
    conditions := conditions.getD []
    notifications := notifications.getD [] }

end ConfigDraft

end Targeting
