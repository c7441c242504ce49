/-
# Notifications

A notification is due at a fixed time or some time after an event. It is delivered on allowed
days, within a window of the day, on the clock of the device. Conditions may keep it from being
scheduled at all, or choose a good moment once it is due; events may cancel it.
-/

import Targeting.Condition.Guard

namespace Targeting

open Calendar (Instant WallTime Weekday)

/-- Which of several events of a name a time is counted from. -/
inductive Occurrence where
  /-- The latest, except that an event during the wait for an earlier one does not count. -/
  | latestOnce
  | latest
  | first
  /-- An instance this library does not know; nothing is counted from it. -/
  | unknown (name : String)
  deriving Repr, DecidableEq

/-- When a notification is due. -/
inductive DueTime where
  | at (t : Instant)
  | afterEvent (event : String) (seconds : Int) (occurrence : Occurrence)
  deriving Repr, DecidableEq

/-- The days and the minutes of the day on which delivery is allowed, ends included. -/
structure DeliveryWindow where
  days : List Weekday
  firstMinute : Nat
  lastMinute : Nat
  deriving Repr, DecidableEq

namespace DeliveryWindow

/-- The last minute of a day. -/
def endOfDay : Nat := 1439

/-- Whether delivery is allowed at a wall time. -/
def allows (window : DeliveryWindow) (wall : WallTime) : Bool :=
  window.days.contains wall.date.weekday &&
    window.firstMinute ≤ wall.minuteOfDay && wall.minuteOfDay ≤ window.lastMinute

end DeliveryWindow

/-- A condition for a good moment, and the most seconds to wait for one; without a limit the wait
has no end. -/
structure IdealDelivery where
  condition : Condition
  maxWait : Option Int
  deriving Repr

/-- A notification. -/
structure Notification where
  id : String
  title : Option String
  body : Option String
  badgeCount : Option Int64
  tapAction : Option String
  sound : Option String
  launchImage : Option String
  relevance : Option Float
  interruption : Option String
  scheduleCondition : Option Condition
  due : DueTime
  window : DeliveryWindow
  ideal : Option IdealDelivery
  cancelationEvents : List String
  deriving Repr

namespace Notification

/-- What identifiers on the device start with. -/
def uniqueIdStart : String := "io.criticalmoments.notifications."

/-- Identifier on the device. -/
def uniqueId (n : Notification) : String := uniqueIdStart ++ n.id

/-- Name of the event that records a delivery. -/
def deliveredEvent (n : Notification) : String := "notifications:delivered:" ++ n.uniqueId

/-- The conditions of a notification. -/
def conditions (n : Notification) : List Condition :=
  n.scheduleCondition.toList ++ (n.ideal.map IdealDelivery.condition).toList

end Notification

end Targeting
