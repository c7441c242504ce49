/-
# The history store

A store records over the ledger of a data directory. It has to be started first. Until then
samples are buffered, the last one for each property, while events and questions are refused;
the start writes what was buffered. Samples that conditions cause by reading a property are
recorded at most once in an interval.

Every operation that stamps a row takes the time as an argument, so that a run is determined by
its operations and the clock.
-/

import Targeting.History.Ledger
import Targeting.Text.NameSet

namespace Targeting

open Calendar (Instant)

/-- Why the store refuses. -/
inductive StoreError where
  /-- The store has not been started. -/
  | notStarted
  /-- The data directory does not exist. -/
  | noDirectory
  /-- The row of the stable random number does not hold an integer. -/
  | noStableRandom
  deriving Repr, DecidableEq

/-- Text of an error. -/
def StoreError.message : StoreError → String
  | notStarted => "history store not started"
  | noDirectory => "data directory does not exist"
  | noStableRandom => "Invalid column type Null at index: 0, name: int_value"

/-- A sample that waits for the start. -/
structure WaitingSample where
  value : PropertyValue
  sampling : Sampling
  deriving Repr, DecidableEq

/-- Whether a store has been started. -/
inductive StorePhase where
  /-- Not yet; samples wait under their names. -/
  | waiting (buffer : List (String × WaitingSample))
  | started
  deriving Repr, DecidableEq

/-- A store over a data directory. -/
structure Store where
  /-- Least age, in microseconds, of all samples of a property when one is recorded on use. -/
  interval : Int
  /-- What the data directory holds. -/
  ledger : Ledger
  phase : StorePhase
  deriving Repr, DecidableEq

namespace Store

/-- Five minutes. -/
def defaultInterval : Int := 300 * 1000000

/-- A store over a ledger that has not been started. -/
def ofLedger (interval : Int) (ledger : Ledger) : Store := ⟨interval, ledger, .waiting []⟩

/-- A new store over the same directory. -/
def reopen (s : Store) : Store := ofLedger s.interval s.ledger

/-- Whether the store has been started. -/
def isStarted (s : Store) : Bool :=
  match s.phase with
  | .started => true
  | .waiting _ => false

/-- The ledger, once the store has been started. -/
def opened (s : Store) : Except StoreError Ledger :=
  if s.isStarted then .ok s.ledger else .error .notStarted

/-- Write a sample unless it comes too soon. -/
def writeSample (interval : Int) (l : Ledger) (name : String) (sample : WaitingSample)
    (now : Instant) : Ledger :=
  match sample.sampling with
  | .onUse =>
    if l.hasYoungSample name interval now then l
    else l.addSample name sample.value .onUse now
  | sampling => l.addSample name sample.value sampling now

/-- Write samples in order. -/
def writeAll (interval : Int) (l : Ledger) (buffer : List (String × WaitingSample))
    (now : Instant) : Ledger :=
  buffer.foldl (fun l (name, sample) => writeSample interval l name sample now) l

/-- Start the store and write what was buffered. A store that has been started stays as it is;
one without a directory keeps its buffer. -/
def start (s : Store) (hasDirectory : Bool) (now : Instant) : Except StoreError Unit × Store :=
  match s.phase with
  | .started => (.ok (), s)
  | .waiting buffer =>
    if hasDirectory then
      (.ok (), ⟨s.interval, writeAll s.interval s.ledger buffer now, .started⟩)
    else (.error .noDirectory, s)

/-- Record an event. -/
def recordEvent (s : Store) (event : Event) (now : Instant) : Except StoreError Unit × Store :=
  match s.opened with
  | .error e => (.error e, s)
  | .ok ledger => (.ok (), { s with ledger := ledger.addEvent event now })

/-- Record a sample, or let it wait for the start. Samples without a name and samples of
properties that are never recorded are ignored. -/
def recordSample (s : Store) (name : String) (value : PropertyValue) (sampling : Sampling)
    (now : Instant) : Store :=
  if name = "" ∨ sampling = .never then s
  else
    match s.phase with
    | .waiting buffer =>
      { s with phase := .waiting (NameMap.insert name ⟨value, sampling⟩ buffer) }
    | .started =>
      { s with ledger := writeSample s.interval s.ledger name ⟨value, sampling⟩ now }

/-! ### Questions -/

/-- How often an event was recorded. -/
def eventCount (s : Store) (name : String) : Except StoreError Nat :=
  s.opened.map fun l => l.eventCount name

/-- How often an event was recorded, counting no further than a limit. -/
def eventCountUpTo (s : Store) (name : String) (limit : Int) : Except StoreError Nat :=
  s.opened.map fun l => l.eventCountUpTo name limit

/-- When an event was recorded for the last time. -/
def latestEvent (s : Store) (name : String) : Except StoreError (Option Instant) :=
  s.opened.map fun l => l.latestEvent? name

/-- When an event was recorded for the first time. -/
def firstEvent (s : Store) (name : String) : Except StoreError (Option Instant) :=
  s.opened.map fun l => l.firstEvent? name

/-- All times at which an event was recorded, in order. -/
def eventTimes (s : Store) (name : String) : Except StoreError (List Instant) :=
  s.opened.map fun l => l.eventTimes name

/-- The value of a property recorded last. -/
def latestValue (s : Store) (name : String) : Except StoreError (Option PropertyValue) :=
  s.opened.map fun l => l.latestValue? name

/-- Whether a property was ever recorded with a value. -/
def everHad (s : Store) (name : String) (value : PropertyValue) : Except StoreError Bool :=
  s.opened.map fun l => l.everHad name value

/-! ### The stable random number -/

/-- Name of the row that keeps the stable random number. -/
def stableRandomName : String := "stable_random"

/-- A random number chosen once for a data directory: the integer in the earliest row of its name.
The candidate becomes the number if there is none yet. -/
def stableRandom (s : Store) (candidate : Int64) (now : Instant) :
    Except StoreError Int64 × Store :=
  match s.opened with
  | .error e => (.error e, s)
  | .ok ledger =>
    match Ledger.earliestBy? SampleRow.stamp (ledger.samplesNamed stableRandomName) with
    | none =>
      (.ok candidate,
        { s with ledger := ledger.addSample stableRandomName (.int candidate) .never now })
    | some row =>
      match row.cells.int with
      | some i => (.ok i, s)
      | none => (.error .noStableRandom, s)

end Store

end Targeting
