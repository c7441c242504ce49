/-
# What the questions about an event have in common

There are five questions about an event: all times at which it was recorded, how often, how often
up to a limit, and when for the first and for the last time. Each goes through the ledger in its own
way. Here they are answered by one list, that of the times in order, after any run of a store.

A time beyond the calendar reads as the beginning of 1970. No clock shows such a time, and the list
has no other times than those of the rows without them.
-/

import Targeting.Proofs.History.Chronology
import Targeting.Proofs.History.Run

namespace Targeting

open Calendar (Instant)
open Ledger (IsChronology Precedes readStamp)

namespace Ledger

variable {l : Ledger} {name : String} {ordered : List (EventRow × Nat)}

/-- The times of events in order, as they are read. -/
def timesOf (ordered : List (EventRow × Nat)) : List Instant :=
  ordered.map fun entry => readStamp entry.1.stamp

theorem timesOf_eq_map_stamp (h : ∀ entry ∈ ordered, entry.1.stamp.inRange) :
    timesOf ordered = ordered.map fun entry => entry.1.stamp :=
  List.map_congr_left fun entry hentry => if_pos (h entry hentry)

theorem exists_eventTimes_eq (l : Ledger) (name : String) :
    ∃ ordered, IsChronology EventRow.stamp (l.eventsNamed name) ordered ∧
      l.eventTimes name = timesOf ordered := by
  obtain ⟨ordered, hordered, hsorted⟩ := exists_isChronology EventRow.stamp (l.eventsNamed name)
  refine ⟨ordered, hordered, ?_⟩
  have htimes : l.eventTimes name =
      ((l.eventsNamed name).mergeSort (stampLe EventRow.stamp)).map fun row =>
        readStamp row.stamp := rfl
  rw [htimes, ← hsorted, List.map_map]
  rfl

theorem eventCount_eq (h : IsChronology EventRow.stamp (l.eventsNamed name) ordered) :
    l.eventCount name = (timesOf ordered).length := by
  rw [timesOf, List.length_map, h.length_eq, eventCount]

/-- A limit that is not negative cuts the count off, any other one does not. -/
theorem eventCountUpTo_eq (l : Ledger) (name : String) (limit : Int) :
    l.eventCountUpTo name limit =
      if 0 ≤ limit then min limit.toNat (l.eventCount name) else l.eventCount name := by
  rw [eventCountUpTo]
  by_cases hlimit : 0 ≤ limit
  · rw [if_pos hlimit, if_neg (Int.not_lt.2 hlimit), List.length_take, eventCount]
  · rw [if_neg hlimit, if_pos (Int.not_le.1 hlimit)]

theorem firstEvent?_eq (h : IsChronology EventRow.stamp (l.eventsNamed name) ordered) :
    l.firstEvent? name = (timesOf ordered).head? := by
  rw [firstEvent?, h.earliestBy?_eq_head?, timesOf, List.head?_map, Option.map_map]
  rfl

theorem latestEvent?_eq (h : IsChronology EventRow.stamp (l.eventsNamed name) ordered) :
    l.latestEvent? name = (timesOf ordered).getLast? := by
  rw [latestEvent?, h.latestBy?_eq_getLast?, timesOf, List.getLast?_map, Option.map_map]
  rfl

end Ledger

namespace Store

/-- All answers of a store about an event are those of a list of times. -/
structure Tells (s : Store) (name : String) (times : List Instant) : Prop where
  all : s.eventTimes name = .ok times
  count : s.eventCount name = .ok times.length
  first : s.firstEvent name = .ok times.head?
  latest : s.latestEvent name = .ok times.getLast?
  limited : ∀ limit : Int, s.eventCountUpTo name limit =
    .ok (if 0 ≤ limit then min limit.toNat times.length else times.length)

theorem exists_tells {s : Store} (hstarted : s.isStarted) (name : String) :
    ∃ ordered, IsChronology EventRow.stamp (s.ledger.eventsNamed name) ordered ∧
      s.Tells name (Ledger.timesOf ordered) := by
  obtain ⟨ordered, hordered, htimes⟩ := Ledger.exists_eventTimes_eq s.ledger name
  have hopened := opened_of_isStarted hstarted
  have hcount := Ledger.eventCount_eq hordered
  refine ⟨ordered, hordered, ?_⟩
  constructor
  case all => rw [eventTimes, hopened, ← htimes]; rfl
  case count => rw [eventCount, hopened, ← hcount]; rfl
  case first => rw [firstEvent, hopened, ← Ledger.firstEvent?_eq hordered]; rfl
  case latest => rw [latestEvent, hopened, ← Ledger.latestEvent?_eq hordered]; rfl
  case limited =>
    intro limit
    rw [eventCountUpTo, hopened, ← hcount, ← Ledger.eventCountUpTo_eq]
    rfl

/-- **The questions about an event agree** after any run of a store that begins in an empty
directory. Their common list holds the times at which the run recorded the event, each of them once,
in the order of the stamps and of recording, as long as these are times of the calendar. -/
theorem event_questions_agree {interval : Int} {ops : List Operation}
    (hstarted : ((ofLedger interval .empty).after ops).isStarted) (name : String) :
    ∃ ordered, IsChronology EventRow.stamp
        (((ofLedger interval .empty).eventsOf ops).filter fun row => row.event.name == name)
        ordered ∧
      ((ofLedger interval .empty).after ops).Tells name (Ledger.timesOf ordered) ∧
      ((∀ entry ∈ ordered, entry.1.stamp.inRange) →
        Ledger.timesOf ordered = ordered.map fun entry => entry.1.stamp) := by
  obtain ⟨ordered, hordered, htells⟩ := exists_tells hstarted name
  refine ⟨ordered, ?_, htells, Ledger.timesOf_eq_map_stamp⟩
  rw [Ledger.eventsNamed, ledger_after] at hordered
  exact hordered

/-- An app is tapped twice within a microsecond, and again after its clock was set back. The store
is left and opened again before the last tap. -/
def taps : List Operation :=
  let tap : Event := ⟨"tap", .custom⟩
  [.start true ⟨0⟩, .recordEvent tap ⟨5⟩, .recordEvent ⟨"swipe", .custom⟩ ⟨5⟩, .recordEvent tap ⟨5⟩,
    .recordEvent tap ⟨2⟩, .reopen 0, .recordEvent tap ⟨3⟩, .start true ⟨3⟩, .recordEvent tap ⟨4⟩]

/-- The tap between leaving the store and starting it again is lost, and the others are told in
order. -/
theorem taps_are_told :
    ((ofLedger 0 .empty).after taps).Tells "tap" [⟨2⟩, ⟨4⟩, ⟨5⟩, ⟨5⟩] := by
  obtain ⟨ordered, hordered, htells, hstamps⟩ :=
    event_questions_agree (show ((ofLedger 0 .empty).after taps).isStarted by decide) "tap"
  have hinRange : ∀ entry ∈ ordered, entry.1.stamp.inRange := by
    intro entry hentry
    rw [hordered.perm.mem_iff] at hentry
    revert entry
    decide +kernel
  have hperm : (ordered.map fun entry => entry.1.stamp).Perm [⟨2⟩, ⟨4⟩, ⟨5⟩, ⟨5⟩] :=
    (hordered.perm.map _).trans (by decide)
  have hsorted : (ordered.map fun entry => entry.1.stamp).Pairwise (· ≤ ·) :=
    List.pairwise_map.2 (hordered.pairwise.imp Precedes.le)
  have htimes := hperm.eq_of_pairwise (fun _ _ _ _ => Instant.le_antisymm) hsorted (by decide)
  rw [hstamps hinRange, htimes] at htells
  exact htells

end Store

end Targeting
