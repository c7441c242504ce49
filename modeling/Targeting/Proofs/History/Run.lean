/-
# Runs of a store

A run of a store is a sequence of operations, each of them at a time of its own: the clock may be
moved between any two of them, and the store may be left and opened again. A ledger only grows in a
run. What is added to it is told here without the ledger's columns, as the events that happened and
the samples that were taken, each as it was given to the store.
-/

import Targeting.History.Store
import Targeting.Proofs.History.Chronology
import Targeting.Proofs.History.Recording

namespace Targeting

open Calendar (Instant)

namespace Ledger

theorem samplesNamed_eq_nil_iff {l : Ledger} {name : String} :
    l.samplesNamed name = [] ↔ ∀ row ∈ l.samples, row.name ≠ name := by
  simp [samplesNamed, List.filter_eq_nil_iff]

theorem hasYoungSample_eq_false_iff {l : Ledger} {name : String} {interval : Int} {now : Instant} :
    l.hasYoungSample name interval now = false ↔
      ∀ row ∈ l.samples, row.name = name → interval ≤ now.micros - row.stamp.micros := by
  simp only [hasYoungSample, samplesNamed, List.any_eq_false, List.mem_filter,
    beq_iff_eq, and_imp, decide_eq_true_iff, Int.not_lt]
  refine forall₃_congr fun row _ _ => ?_
  omega

end Ledger

/-- A value of a property that is recorded, as it was given. -/
structure Sample where
  name : String
  value : PropertyValue
  sampling : Sampling
  stamp : Instant
  deriving Repr, DecidableEq

namespace Sample

/-- The row that a sample is kept in. -/
def row (x : Sample) : SampleRow :=
  ⟨x.name, x.value.kind.code, .ofValue x.value, x.sampling, x.stamp⟩

/-- A sample is due at any time, but one that a condition causes is due only if every row of the
property, whatever recorded it, is at least as old as an interval. -/
def IsDue (interval : Int) (rows : List SampleRow) (x : Sample) : Prop :=
  x.sampling = .onUse → ∀ row ∈ rows, row.name = x.name →
    interval ≤ x.stamp.micros - row.stamp.micros

instance (interval : Int) (rows : List SampleRow) (x : Sample) :
    Decidable (x.IsDue interval rows) :=
  inferInstanceAs (Decidable (_ → _))

end Sample

namespace Store

/-- What a store may be asked to do, questions apart. -/
inductive Operation where
  /-- The store is left, and there is a new one over the same directory, with its own interval. -/
  | reopen (interval : Int)
  | start (hasDirectory : Bool) (now : Instant)
  | recordEvent (event : Event) (now : Instant)
  | recordSample (name : String) (value : PropertyValue) (sampling : Sampling) (now : Instant)
  | stableRandom (candidate : Int64) (now : Instant)
  deriving Repr, DecidableEq

/-- The samples that waited for the start, without those that are not due. -/
def flushed (interval : Int) (now : Instant) :
    List SampleRow → List (String × WaitingSample) → List Sample
  | _, [] => []
  | rows, (name, waiting) :: rest =>
    let x : Sample := ⟨name, waiting.value, waiting.sampling, now⟩
    if x.IsDue interval rows then x :: flushed interval now (rows ++ [x.row]) rest
    else flushed interval now rows rest

namespace Operation

/-- The store after an operation, whatever its answer. -/
def run (s : Store) : Operation → Store
  | reopen interval => ofLedger interval s.ledger
  | start hasDirectory now => (s.start hasDirectory now).2
  | recordEvent event now => (s.recordEvent event now).2
  | recordSample name value sampling now => s.recordSample name value sampling now
  | stableRandom candidate now => (s.stableRandom candidate now).2

/-- The events that an operation records. -/
def events (s : Store) : Operation → List EventRow
  | recordEvent event now => if s.isStarted then [⟨event, now⟩] else []
  | _ => []

/-- The samples that an operation records: those that waited, one that it is given, and the stable
random number as the first sample under its name. -/
def samples (s : Store) : Operation → List Sample
  | start hasDirectory now =>
    match s.phase with
    | .waiting buffer => if hasDirectory then flushed s.interval now s.ledger.samples buffer else []
    | .started => []
  | recordSample name value sampling now =>
    let x : Sample := ⟨name, value, sampling, now⟩
    if s.isStarted ∧ name ≠ "" ∧ sampling ≠ .never ∧ x.IsDue s.interval s.ledger.samples then [x]
    else []
  | stableRandom candidate now =>
    if s.isStarted ∧ ∀ row ∈ s.ledger.samples, row.name ≠ stableRandomName then
      [⟨stableRandomName, .int candidate, .never, now⟩]
    else []
  | _ => []

end Operation

/-- The store after some operations. -/
def after (s : Store) (ops : List Operation) : Store := ops.foldl Operation.run s

/-- The events that are recorded in a run. -/
def eventsOf (s : Store) : List Operation → List EventRow
  | [] => []
  | op :: rest => op.events s ++ eventsOf (op.run s) rest

/-- The samples that are recorded in a run. -/
def samplesOf (s : Store) : List Operation → List Sample
  | [] => []
  | op :: rest => op.samples s ++ samplesOf (op.run s) rest

/-! ## What an operation adds -/

variable {s : Store} {interval : Int} {l : Ledger} {now : Instant}

theorem isDue_of_ne {x : Sample} {rows : List SampleRow} (h : x.sampling ≠ .onUse) :
    x.IsDue interval rows :=
  fun honUse => absurd honUse h

theorem isDue_iff_of_onUse {x : Sample} (h : x.sampling = .onUse) :
    x.IsDue interval l.samples ↔ l.hasYoungSample x.name interval x.stamp = false := by
  rw [Ledger.hasYoungSample_eq_false_iff, Sample.IsDue]
  exact ⟨fun hdue => hdue h, fun hold _ => hold⟩

/-- Writing a sample adds its row if it is due. -/
theorem writeSample_eq (x : Sample) :
    writeSample interval l x.name ⟨x.value, x.sampling⟩ x.stamp =
      ⟨l.events, l.samples ++ if x.IsDue interval l.samples then [x.row] else []⟩ := by
  by_cases honUse : x.sampling = .onUse
  · simp only [writeSample, honUse]
    rw [← honUse]
    cases hyoung : l.hasYoungSample x.name interval x.stamp with
    | true =>
        have hdue : ¬ x.IsDue interval l.samples := by simp [isDue_iff_of_onUse honUse, hyoung]
        rw [if_pos rfl, if_neg hdue, List.append_nil]
    | false =>
        rw [if_neg Bool.false_ne_true, if_pos ((isDue_iff_of_onUse honUse).2 hyoung)]
        rfl
  · rw [if_pos (isDue_of_ne honUse)]
    obtain ⟨name, value, sampling, stamp⟩ := x
    cases sampling with
    | onUse => exact absurd rfl honUse
    | appStart | onCustomSet | never => rfl

theorem writeAll_eq (buffer : List (String × WaitingSample)) :
    writeAll interval l buffer now =
      ⟨l.events, l.samples ++ (flushed interval now l.samples buffer).map Sample.row⟩ := by
  induction buffer generalizing l with
  | nil => simp [writeAll, flushed]
  | cons first rest ih =>
      obtain ⟨name, value, sampling⟩ := first
      have hwrite := @writeSample_eq interval l ⟨name, value, sampling, now⟩
      change writeAll interval (writeSample interval l name ⟨value, sampling⟩ now) rest now = _
      rw [hwrite, ih, flushed]
      by_cases hdue : (Sample.mk name value sampling now).IsDue interval l.samples
      · simp [hdue]
      · simp [hdue]

theorem ledger_start (s : Store) (hasDirectory : Bool) (now : Instant) :
    (s.start hasDirectory now).2.ledger = ⟨s.ledger.events, s.ledger.samples ++
      ((Operation.start hasDirectory now).samples s).map Sample.row⟩ := by
  simp only [start, Operation.samples]
  cases hphase : s.phase with
  | started => simp
  | waiting buffer =>
      cases hasDirectory with
      | false => simp
      | true => simpa using writeAll_eq buffer

theorem ledger_recordSample (s : Store) (x : Sample) :
    (s.recordSample x.name x.value x.sampling x.stamp).ledger =
      ⟨s.ledger.events, s.ledger.samples ++
        ((Operation.recordSample x.name x.value x.sampling x.stamp).samples s).map Sample.row⟩ := by
  simp only [recordSample, Operation.samples]
  by_cases hskip : x.name = "" ∨ x.sampling = .never
  · have hnot : ¬ (s.isStarted ∧ x.name ≠ "" ∧ x.sampling ≠ .never ∧
        x.IsDue s.interval s.ledger.samples) := by tauto
    rw [if_pos hskip, if_neg hnot, List.map_nil, List.append_nil]
  · rw [if_neg hskip]
    rw [not_or] at hskip
    cases hphase : s.phase with
    | waiting buffer => simp [isStarted, hphase]
    | started => simp [isStarted, hphase, hskip, writeSample_eq, apply_ite (List.map Sample.row)]

theorem ledger_stableRandom (s : Store) (candidate : Int64) (now : Instant) :
    (s.stableRandom candidate now).2.ledger = ⟨s.ledger.events, s.ledger.samples ++
      ((Operation.stableRandom candidate now).samples s).map Sample.row⟩ := by
  simp only [stableRandom, Operation.samples]
  by_cases hstarted : s.isStarted
  · rw [opened_of_isStarted hstarted]
    simp only [hstarted, true_and, ← Ledger.samplesNamed_eq_nil_iff]
    cases hrow : Ledger.earliestBy? SampleRow.stamp (s.ledger.samplesNamed stableRandomName) with
    | none =>
        rw [if_pos (Ledger.earliestBy?_eq_none_iff.1 hrow)]
        rfl
    | some row =>
        have hne : s.ledger.samplesNamed stableRandomName ≠ [] := by
          intro hnil
          simp [hnil, Ledger.earliestBy?] at hrow
        rw [if_neg hne, List.map_nil, List.append_nil]
        simp only
        cases row.cells.int <;> rfl
  · rw [opened, if_neg hstarted]
    simp [hstarted]

theorem events_recordSample (s : Store) (x : Sample) :
    (s.recordSample x.name x.value x.sampling x.stamp).ledger.events = s.ledger.events := by
  rw [ledger_recordSample]

theorem events_stableRandom (s : Store) (candidate : Int64) (now : Instant) :
    (s.stableRandom candidate now).2.ledger.events = s.ledger.events := by
  rw [ledger_stableRandom]

/-- **What an operation adds to the ledger** are its events and the rows of its samples. -/
theorem ledger_run (s : Store) (op : Operation) :
    (op.run s).ledger =
      ⟨s.ledger.events ++ op.events s, s.ledger.samples ++ (op.samples s).map Sample.row⟩ := by
  cases op with
  | reopen interval => simp [Operation.run, Operation.events, Operation.samples, ofLedger]
  | start hasDirectory now =>
      simp only [Operation.events, List.append_nil]
      exact ledger_start s hasDirectory now
  | recordEvent event now =>
      by_cases hstarted : s.isStarted
      · simp [Operation.run, Operation.events, Operation.samples, recordEvent_of_isStarted,
          hstarted, Ledger.addEvent]
      · simp [Operation.run, Operation.events, Operation.samples, recordEvent_of_not_isStarted,
          hstarted]
  | recordSample name value sampling now =>
      simp only [Operation.events, List.append_nil]
      exact ledger_recordSample s ⟨name, value, sampling, now⟩
  | stableRandom candidate now =>
      simp only [Operation.events, List.append_nil]
      exact ledger_stableRandom s candidate now

/-- A run adds what its operations add. -/
theorem ledger_after (s : Store) (ops : List Operation) :
    (s.after ops).ledger = ⟨s.ledger.events ++ s.eventsOf ops,
      s.ledger.samples ++ (s.samplesOf ops).map Sample.row⟩ := by
  induction ops generalizing s with
  | nil => simp [after, eventsOf, samplesOf]
  | cons op rest ih =>
      change ((op.run s).after rest).ledger = _
      rw [ih, ledger_run, eventsOf, samplesOf, List.map_append, List.append_assoc,
        List.append_assoc]

end Store

end Targeting
