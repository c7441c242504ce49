/-
# Notifications as they are written

The fields of a notification in a configuration, before they are checked.
-/

import Targeting.Condition.Guard
import Targeting.Json.Record

namespace Targeting

/-- When a notification is due, as written. -/
structure DueTimeDraft where
  timestamp : Option Int64
  event : Option String
  offset : Option Int64
  occurrence : Option String
  deriving Repr

/-- Ideal delivery, as written. -/
structure IdealDeliveryDraft where
  condition : Option String
  maxWait : Int64
  deriving Repr

/-- A notification, as written. -/
structure NotificationDraft where
  title : Option String
  body : Option String
  badgeCount : Option Int64
  tapAction : Option String
  sound : Option String
  launchImage : Option String
  relevance : Option Float
  interruption : Option String
  scheduleCondition : Option String
  due : DueTimeDraft
  days : Option String
  dayStart : Option String
  dayEnd : Option String
  ideal : Option IdealDeliveryDraft
  cancelationEvents : Option (List String)
  deriving Repr

open Json (Written optional field)

/-- Read when a notification is due. -/
def DueTimeDraft.read? (json : Written) : Option DueTimeDraft := do
  let names := ["timestamp", "eventName", "eventOffsetSeconds", "eventInstance"]
  let fields ← json.record? names 4
  let timestamp ← optional fields "timestamp" Written.int?
  let event ← optional fields "eventName" Written.text?
  let offset ← optional fields "eventOffsetSeconds" Written.int?
  let occurrence ← optional fields "eventInstance" Written.text?
  some ⟨timestamp, event, offset, occurrence⟩

/-- Read ideal delivery. -/
def IdealDeliveryDraft.read? (json : Written) : Option IdealDeliveryDraft := do
  let fields ← json.record? ["condition", "maxWaitTimeSeconds"] 0
  let condition ← optional fields "condition" Written.text?
  let maxWait ← field fields "maxWaitTimeSeconds" 0 Written.int?
  some ⟨condition, maxWait⟩

namespace NotificationDraft

/-- Names of the fields, in order. -/
def names : List String :=
  ["title", "body", "badgeCount", "tapActionName", "sound", "launchImageName", "relevanceScore",
    "interruptionLevel", "scheduleCondition", "deliveryTime", "deliveryDaysOfWeek",
    "deliveryTimeOfDayStart", "deliveryTimeOfDayEnd", "idealDeliveryConditions",
    "cancelationEvents"]

/-- Read a notification. -/
def read? (json : Written) : Option NotificationDraft := do
  let fields ← json.record? names names.length
  let text := fun name => optional fields name Written.text?
  let title ← text "title"
  let body ← text "body"
  let badgeCount ← optional fields "badgeCount" Written.int?
  let tapAction ← text "tapActionName"
  let sound ← text "sound"
  let launchImage ← text "launchImageName"
  let relevance ← optional fields "relevanceScore" Written.float?
  let interruption ← text "interruptionLevel"
  let scheduleCondition ← text "scheduleCondition"
  let due ← field fields "deliveryTime" ⟨none, none, none, none⟩ DueTimeDraft.read?
  let days ← text "deliveryDaysOfWeek"
  let dayStart ← text "deliveryTimeOfDayStart"
  let dayEnd ← text "deliveryTimeOfDayEnd"
  let ideal ← optional fields "idealDeliveryConditions" IdealDeliveryDraft.read?
  let cancelationEvents ← optional fields "cancelationEvents" (Written.list? Written.text?)
  some {
    title, body, badgeCount, tapAction, sound, launchImage, relevance, interruption,
    scheduleCondition, due, days, dayStart, dayEnd, ideal, cancelationEvents }

end NotificationDraft

end Targeting
