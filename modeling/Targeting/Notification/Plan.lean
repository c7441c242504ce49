/-
# Planning notifications

A plan says which notifications are scheduled and for when, and when to plan again in the
background to look for a good moment. It follows from history, the conditions and the time, so
planning twice under the same circumstances gives the same plan.
-/

import Targeting.Notification.Due
import Targeting.Notification.Window

namespace Targeting

open Calendar (ClockTime Instant Zone)
open Condition (Environment)

/-- A notification with the time of its delivery. -/
structure ScheduledNotification where
  notification : Notification
  time : Instant
  deriving Repr

/-- What should be scheduled on the device. -/
structure Plan where
  scheduled : List ScheduledNotification
  unscheduled : List Notification
  /-- When to plan again. -/
  check : Option Instant
  deriving Repr

/-- When a notification is delivered, and when to look for a good moment again. -/
structure Delivery where
  time : Option ClockTime
  check : Option Instant
  deriving Repr, DecidableEq

namespace Delivery

/-- Not delivered. -/
def never : Delivery := ⟨none, none⟩

end Delivery

namespace Notification

/-- Seconds from now to the next look for a good moment. -/
def checkDelay : Int := 15 * 60

/-- Seconds that a look for a good moment waits after a window opens. -/
def openingMargin : Int := 2 * 60

/-- Whether an event has cancelled the notification. It counts as cancelled as long as history
cannot be read. -/
def isCancelled (n : Notification) (store : Store) : Bool :=
  n.cancelationEvents.any fun event =>
    match store.eventCountUpTo event 1 with
    | .ok count => 0 < count
    | .error _ => true

/-- Whether a condition holds; one that fails does not hold. -/
def holds {σ : Type} (env : Environment σ) (c : Condition) (s : σ) : Bool × σ :=
  match c.evaluate env s with
  | (.ok b, s) => (b, s)
  | (.error _, s) => (false, s)

/-- Whether the notification may be scheduled. -/
def maySchedule {σ : Type} (n : Notification) (env : Environment σ) (s : σ) : Bool × σ :=
  match n.scheduleCondition with
  | none => (true, s)
  | some c => holds env c s

/-- When the notification is due, if it is neither cancelled nor held back. -/
def dueTime? {σ : Type} (n : Notification) (store : Store) (env : Environment σ) (now : Instant)
    (s : σ) : Option Instant × σ :=
  if n.isCancelled store then (none, s)
  else
    match n.maySchedule env s with
    | (true, s) => (n.due.instant? store now, s)
    | (false, s) => (none, s)

/-- Whether now is a time to look for a good moment: the notification is due, the wait is not
over and delivery is allowed. -/
def isWaiting (n : Notification) (ideal : IdealDelivery) (due now : Instant) (zone : Zone) : Bool :=
  decide (due ≤ now) &&
    (match ideal.maxWait with
    | some seconds => now.micros - due.micros ≤ seconds * 1000000
    | none => true) &&
    n.window.allowsAt zone now

/-- The first look for a good moment within the window. There is none after the delivery. -/
def checkTime? (n : Notification) (now : Instant) (zone : Zone) (delivery : Option Instant) :
    Option Instant := do
  let soon ← now.addSeconds? checkDelay
  let opening := (n.window.shift zone soon).instant
  let check ← if soon < opening then opening.addSeconds? openingMargin else some soon
  match delivery with
  | some time => if time < check then none else some check
  | none => some check

/-- Deliver a notification that is due at a good moment: now if it is one, and otherwise when the
wait is over, which may be never. Answers the time and the next look for a good moment. -/
def awaitMoment {σ : Type} (n : Notification) (env : Environment σ) (due now : Instant)
    (zone : Zone) (s : σ) : (Option Instant × Option Instant) × σ :=
  match n.ideal with
  | none => ((some due, none), s)
  | some ideal =>
    let (isGood, s) :=
      if n.isWaiting ideal due now zone then holds env ideal.condition s else (false, s)
    if isGood then ((some now, none), s)
    else
      let latest := ideal.maxWait.bind due.addSeconds?
      ((latest, n.checkTime? now zone latest), s)

/-- When the notification is delivered. The time it is due is moved by the wait for a good
moment and then into the window. -/
def delivery {σ : Type} (n : Notification) (store : Store) (env : Environment σ) (now : Instant)
    (zone : Zone) (s : σ) : Delivery × σ :=
  match n.dueTime? store env now s with
  | (none, s) => (.never, s)
  | (some due, s) =>
    let ((time, check), s) := n.awaitMoment env due now zone s
    (⟨time.map (n.window.shift zone), check⟩, s)

end Notification

/-- The earlier of two times that may be missing. -/
def earlierCheck : Option Instant → Option Instant → Option Instant
  | some a, some b => some (a.earlier b)
  | some a, none => some a
  | none, b => b

namespace Plan

/-- Nothing is scheduled, and nothing has to be removed. -/
def empty : Plan := ⟨[], [], none⟩

instance : Inhabited Plan := ⟨empty⟩

/-- Add a notification in front of a plan. -/
def add (n : Notification) (d : Delivery) (plan : Plan) : Plan :=
  let check := earlierCheck d.check plan.check
  match d.time with
  | some c => ⟨⟨n, c.instant⟩ :: plan.scheduled, plan.unscheduled, check⟩
  | none => ⟨plan.scheduled, n :: plan.unscheduled, check⟩

/-- Plan notifications, in order. -/
def make {σ : Type} (store : Store) (env : Environment σ) (now : Instant) (zone : Zone) :
    List Notification → σ → Plan × σ
  | [], s => (empty, s)
  | n :: rest, s =>
    let (d, s) := n.delivery store env now zone s
    let (plan, s) := make store env now zone rest s
    (add n d plan, s)

/-- Whether a notification is scheduled, by identifier. -/
def schedules (plan : Plan) (id : String) : Bool :=
  plan.scheduled.any fun entry => entry.notification.id == id

/-- Whether an event can change when a notification is delivered. -/
def isDelayedBy (plan : Plan) (event : String) (n : Notification) : Bool :=
  match n.due with
  | .at _ => false
  | .afterEvent name _ occurrence =>
    name == event &&
      match occurrence with
      | .latest | .latestOnce => true
      | .first => !plan.schedules n.id
      | .unknown _ => false

/-- Whether an event can change the plan: it cancels a scheduled notification, or the delivery of
a notification is counted from it. -/
def needsUpdate (plan : Plan) (event : String) (notifications : List Notification) : Bool :=
  (plan.scheduled.any fun entry => entry.notification.cancelationEvents.contains event) ||
    notifications.any (plan.isDelayedBy event)

end Plan

end Targeting
