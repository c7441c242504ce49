/-
# Due times

When a notification is due follows from its due time and history. A time that is counted from
the latest event, but once, ignores the events that occur while an earlier one still waits: a
burst of events counts as one, and is counted from its last event.
-/

import Targeting.History.Store
import Targeting.Notification.Basic

namespace Targeting

open Calendar (Instant)

/-- The last event of a burst. Each event extends the burst unless it comes later than a number
of seconds after the one before. -/
def burstEnd (seconds : Int) (last : Instant) : List Instant → Instant
  | [] => last
  | t :: rest =>
    match last.addSeconds? seconds with
    | some delivery => if delivery < t then last else burstEnd seconds t rest
    | none => burstEnd seconds t rest

/-- The event that a notification is counted from which ignores events while it waits: the last
event of the first burst. -/
def latestOnce? (seconds : Int) : List Instant → Option Instant
  | [] => none
  | first :: rest => some (burstEnd seconds first rest)

namespace Occurrence

/-- The time of the event to count from. Without a wait the first event ends the first burst. -/
def time? (store : Store) (event : String) (seconds : Int) :
    Occurrence → Except StoreError (Option Instant)
  | latest => store.latestEvent event
  | first => store.firstEvent event
  | latestOnce =>
    if seconds = 0 then store.firstEvent event
    else (store.eventTimes event).map fun times => latestOnce? seconds times
  | unknown _ => .ok none

end Occurrence

/-- When a notification is due. A fixed time that has passed is never due; a time after an event
stays due. -/
def DueTime.instant? (store : Store) (now : Instant) : DueTime → Option Instant
  | .at t => if now ≤ t then some t else none
  | .afterEvent event seconds occurrence =>
    match occurrence.time? store event seconds with
    | .ok (some t) => t.addSeconds? seconds
    | .ok none => none
    | .error _ => none

end Targeting
