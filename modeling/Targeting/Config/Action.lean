/-
# Actions

What a configuration can make happen. Most actions are payloads that the host shows; they are
kept as data. A fork runs one of two other actions, depending on a condition. An action may
have a guard, and a trigger runs an action when an event happens. Payloads name further
actions, such as the one that a button runs.
-/

import Targeting.Condition.Guard
import Targeting.Json.Record

namespace Targeting

/-- Runs one of two named actions. -/
structure Fork where
  condition : Condition
  passed : String
  /-- Nothing runs without it when the condition is false. -/
  failed : Option String
  deriving Repr

/-- The action to run for a result of the condition. -/
def Fork.target (f : Fork) : Bool → Option String
  | true => some f.passed
  | false => f.failed

/-- What an action does. -/
inductive Action where
  | banner (data : Json)
  | alert (data : Json)
  | link (data : Json)
  | modal (data : Json)
  | reviewPrompt
  | fork (f : Fork)
  /-- A kind of action that this library does not know; it does nothing. -/
  | unknown (kind : String) (data : Json)
  deriving Repr

namespace Action

/-- Name of the kind of an action. -/
def kind : Action → String
  | banner _ => "banner"
  | alert _ => "alert"
  | link _ => "link"
  | modal _ => "modal"
  | reviewPrompt => "review_prompt"
  | fork _ => "conditional_action"
  | unknown kind _ => kind

/-- Payload of an action. -/
def data? : Action → Option Json
  | banner data | alert data | link data | modal data | unknown _ data => some data
  | reviewPrompt | fork _ => none

/-- The nonempty text at a path of a payload. -/
def nameAt (path : List String) (data : Json) : List String :=
  (((data.at? path).bind Json.text?).filter (· ≠ "")).toList

/-- The nonempty action names of the buttons at a path of a payload. -/
def buttonNames (path : List String) (data : Json) : List String :=
  (((data.at? path).bind Json.items?).getD []).flatMap (nameAt ["actionName"])

/-- Names of actions that an action may run. -/
def embeddedNames : Action → List String
  | banner data => nameAt ["tapActionName"] data
  | alert data => nameAt ["okButtonActionName"] data ++ buttonNames ["customButtons"] data
  | modal data => buttonNames ["content", "pageData", "buttons"] data
  | fork f => f.passed :: f.failed.toList
  | link _ | reviewPrompt | unknown _ _ => []

end Action

/-- An action that only runs when its guard is true, if it has one. -/
structure GuardedAction where
  guard : Option Condition
  action : Action
  deriving Repr

/-- The conditions of an action: its guard and the condition of a fork. -/
def GuardedAction.conditions (a : GuardedAction) : List Condition :=
  a.guard.toList ++ match a.action with
    | .fork f => [f.condition]
    | _ => []

/-- Runs an action when an event happens, if its guard is true. -/
structure Trigger where
  event : String
  action : String
  guard : Option Condition
  deriving Repr

/-- An action, as written. -/
structure ActionDraft where
  kind : String
  guard : Option String
  data : Json
  deriving Repr

/-- A trigger, as written. -/
structure TriggerDraft where
  event : String
  action : String
  guard : Option String
  deriving Repr

/-- A fork, as written. -/
structure ForkDraft where
  condition : String
  passed : String
  failed : Option String
  deriving Repr

open Json (Written optional field)

/-- Read an action whose payload is nested at most to a depth. -/
def ActionDraft.read? (depth : Nat) (json : Written) : Option ActionDraft := do
  let fields ← json.record? ["actionType", "condition", "actionData"] 0
  let kind ← field fields "actionType" "" Written.text?
  let guard ← optional fields "condition" Written.text?
  let data ← field fields "actionData" .null (Written.value? depth)
  some ⟨kind, guard, data⟩

/-- Read a trigger. -/
def TriggerDraft.read? (json : Written) : Option TriggerDraft := do
  let fields ← json.record? ["eventName", "actionName", "condition"] 0
  let event ← field fields "eventName" "" Written.text?
  let action ← field fields "actionName" "" Written.text?
  let guard ← optional fields "condition" Written.text?
  some ⟨event, action, guard⟩

/-- Read a fork. -/
def ForkDraft.read? (json : Written) : Option ForkDraft := do
  let fields ← json.record? ["condition", "passedActionName", "failedActionName"] 0
  let condition ← field fields "condition" "" Written.text?
  let passed ← field fields "passedActionName" "" Written.text?
  let failed ← optional fields "failedActionName" Written.text?
  some ⟨condition, passed, failed⟩

/-- A guard that is not valid: its source and what is wrong. -/
structure GuardIssue where
  source : String
  error : Condition.Error
  deriving Repr, DecidableEq

/-- Description of an issue. -/
def GuardIssue.message (issue : GuardIssue) : String :=
  "[[ " ++ issue.source ++ " ]] " ++ issue.error.message

/-- Prepare a guard; an empty one counts as absent. -/
def prepareGuard (engine : Condition.Engine) (source : Option String) :
    Except GuardIssue (Option Condition) :=
  match source.filter (· ≠ "") with
  | none => .ok none
  | some source =>
    match (Condition.ofSource source).prepare engine with
    | (.ok (), condition) => .ok (some condition)
    | (.error error, _) => .error ⟨source, error⟩

/-- What is wrong with an action. -/
inductive ActionIssue where
  | noKind
  | unreadableFork
  | forkWithoutCondition
  | forkCondition (source : String)
  | forkWithoutAction
  | unsupportedKind (kind : String)
  | guard (issue : GuardIssue)
  deriving Repr, DecidableEq

/-- Description of an issue. -/
def ActionIssue.message : ActionIssue → String
  | noKind => "Empty actionType not permitted"
  | unreadableFork => "Issue unpacking type \"conditional_action\": unexpected shape"
  | forkWithoutCondition => "Conditional actions must have a condition"
  | forkCondition source => "Condition in conditional action is not valid: [[" ++ source ++ "]]"
  | forkWithoutAction =>
    "Conditional actions must include a passedActionName to run if condition passes " ++
      "(failedActionName is optional)"
  | unsupportedKind kind => "Unsupported action type: \"" ++ kind ++ "\" found in config file."
  | guard issue => "Invalid condition: " ++ issue.message

/-- Check a fork. An empty name of the action for a false condition counts as absent. -/
def Fork.ofDraft (engine : Condition.Engine) (draft : ForkDraft) : Except ActionIssue Fork :=
  if draft.condition = "" then .error .forkWithoutCondition
  else
    match (Condition.ofSource draft.condition).prepare engine with
    | (.error _, _) => .error (.forkCondition draft.condition)
    | (.ok (), condition) =>
      if draft.passed = "" then .error .forkWithoutAction
      else .ok ⟨condition, draft.passed, draft.failed.filter (· ≠ "")⟩

/-- Check what an action does. -/
def Action.ofDraft (engine : Condition.Engine) (draft : ActionDraft) : Except ActionIssue Action :=
  match draft.kind with
  | "" => .error .noKind
  | "banner" => .ok (banner draft.data)
  | "alert" => .ok (alert draft.data)
  | "link" => .ok (link draft.data)
  | "modal" => .ok (modal draft.data)
  | "review_prompt" => .ok reviewPrompt
  | "conditional_action" =>
    match ForkDraft.read? (Written.ofValue draft.data) with
    | none => .error .unreadableFork
    | some draft => (Fork.ofDraft engine draft).map fork
  | kind =>
    match engine.mode with
    | .strict => .error (.unsupportedKind kind)
    | .lenient => .ok (unknown kind draft.data)

/-- Check an action and its guard. -/
def GuardedAction.ofDraft (engine : Condition.Engine) (draft : ActionDraft) :
    Except ActionIssue GuardedAction :=
  match Action.ofDraft engine draft with
  | .error issue => .error issue
  | .ok action =>
    match prepareGuard engine draft.guard with
    | .error issue => .error (.guard issue)
    | .ok guard => .ok ⟨guard, action⟩

/-- What is wrong with a trigger. -/
inductive TriggerIssue where
  | noEvent
  | noAction
  | guard (issue : GuardIssue)
  deriving Repr, DecidableEq

/-- Description of an issue. -/
def TriggerIssue.message : TriggerIssue → String
  | noEvent => "All triggers require an event"
  | noAction => "All triggers require an action name"
  | guard issue => "Invalid condition in trigger: " ++ issue.message

/-- Check a trigger. -/
def Trigger.ofDraft (engine : Condition.Engine) (draft : TriggerDraft) :
    Except TriggerIssue Trigger :=
  if draft.event = "" then .error .noEvent
  else if draft.action = "" then .error .noAction
  else
    match prepareGuard engine draft.guard with
    | .error issue => .error (.guard issue)
    | .ok guard => .ok ⟨draft.event, draft.action, guard⟩

end Targeting
