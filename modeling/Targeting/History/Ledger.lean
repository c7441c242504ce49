/-
# The ledger

What a data directory remembers: the events that were recorded and the values of properties
that were sampled, each in the order of recording and each with a time stamp. The clock of the
device may be moved, so stamps need not ascend. Wherever order matters it is the order of the
stamps, and of rows with the same stamp the one recorded earlier comes first.
-/

import Targeting.History.Columns
import Targeting.History.Event

namespace Targeting

open Calendar (Instant)

/-- An event that was recorded. -/
structure EventRow where
  event : Event
  stamp : Instant
  deriving Repr, DecidableEq

/-- A value of a property that was recorded. -/
structure SampleRow where
  name : String
  /-- Code of the kind of the value. -/
  code : Nat
  /-- The columns, with the value in one of them. -/
  cells : Cells
  sampling : Sampling
  stamp : Instant
  deriving Repr, DecidableEq

/-- Everything that was recorded, in the order of recording. -/
structure Ledger where
  events : List EventRow
  samples : List SampleRow
  deriving Repr, DecidableEq

namespace Ledger

/-- Nothing was recorded. -/
def empty : Ledger := ⟨[], []⟩

instance : Inhabited Ledger := ⟨empty⟩

/-- The last row by stamp; among the last ones the one recorded last. -/
def latestBy? {α : Type} (stamp : α → Instant) : List α → Option α
  | [] => none
  | row :: rest =>
    match latestBy? stamp rest with
    | none => some row
    | some best => if stamp best < stamp row then some row else some best

/-- The first row by stamp; among the first ones the one recorded first. -/
def earliestBy? {α : Type} (stamp : α → Instant) : List α → Option α
  | [] => none
  | row :: rest =>
    match earliestBy? stamp rest with
    | none => some row
    | some best => if stamp best < stamp row then some best else some row

/-- A stamp as it is read: one beyond the calendar reads as the beginning of 1970. -/
def readStamp (stamp : Instant) : Instant :=
  if stamp.inRange then stamp else ⟨0⟩

/-! ### Events -/

/-- Record an event. -/
def addEvent (l : Ledger) (event : Event) (now : Instant) : Ledger :=
  { l with events := l.events ++ [⟨event, now⟩] }

/-- The rows of an event, in the order of recording. -/
def eventsNamed (l : Ledger) (name : String) : List EventRow :=
  l.events.filter fun row => row.event.name == name

/-- How often an event was recorded. -/
def eventCount (l : Ledger) (name : String) : Nat := (l.eventsNamed name).length

/-- How often an event was recorded, counting no further than a limit; a negative limit is none. -/
def eventCountUpTo (l : Ledger) (name : String) (limit : Int) : Nat :=
  if limit < 0 then l.eventCount name else ((l.eventsNamed name).take limit.toNat).length

/-- When an event was recorded for the last time. -/
def latestEvent? (l : Ledger) (name : String) : Option Instant :=
  (latestBy? EventRow.stamp (l.eventsNamed name)).map fun row => readStamp row.stamp

/-- When an event was recorded for the first time. -/
def firstEvent? (l : Ledger) (name : String) : Option Instant :=
  (earliestBy? EventRow.stamp (l.eventsNamed name)).map fun row => readStamp row.stamp

/-- All times at which an event was recorded, in order. -/
def eventTimes (l : Ledger) (name : String) : List Instant :=
  ((l.eventsNamed name).mergeSort fun a b => a.stamp ≤ b.stamp).map fun row => readStamp row.stamp

/-! ### Samples -/

/-- Record a value. -/
def addSample (l : Ledger) (name : String) (value : PropertyValue) (sampling : Sampling)
    (now : Instant) : Ledger :=
  { l with samples := l.samples ++ [⟨name, value.kind.code, .ofValue value, sampling, now⟩] }

/-- The samples of a property, in the order of recording. -/
def samplesNamed (l : Ledger) (name : String) : List SampleRow :=
  l.samples.filter fun row => row.name == name

/-- Whether some sample of a property is younger than an age in microseconds. -/
def hasYoungSample (l : Ledger) (name : String) (age : Int) (now : Instant) : Bool :=
  (l.samplesNamed name).any fun row => now.micros - age < row.stamp.micros

/-- The value recorded last. -/
def latestValue? (l : Ledger) (name : String) : Option PropertyValue := do
  let row ← latestBy? SampleRow.stamp (l.samplesNamed name)
  row.cells.value? row.code

/-- Whether a property was ever recorded with a value. -/
def everHad (l : Ledger) (name : String) (value : PropertyValue) : Bool :=
  (l.samplesNamed name).any fun row => row.code == value.kind.code && row.cells.holds value

end Ledger

end Targeting
