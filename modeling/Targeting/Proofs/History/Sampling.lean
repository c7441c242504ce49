/-
# Limited sampling

Conditions may read a property at any moment, so the samples that they cause are limited: all rows
of the property have to be at least an interval old. Rows that the start of the app or the app
itself caused are not limited, but they count as well. What a started store does with a sample is
told here case by case, and for a whole run that the rows which conditions caused keep their
distance from all rows before them, whatever else happens in the run.

The distance is kept in the order of recording, however the clock is moved. If the clock is never
set back, this is also the order of the stamps.
-/

import Targeting.Proofs.History.Run

namespace Targeting

open Calendar (Instant)

/-- A row that a condition caused is at least an interval later than the other rows of its name. -/
def SampleRow.KeepsDistance (interval : Int) (others : List SampleRow) (row : SampleRow) : Prop :=
  row.sampling = .onUse → ∀ other ∈ others, other.name = row.name →
    interval ≤ row.stamp.micros - other.stamp.micros

namespace Sample

variable {interval : Int} {rows before after : List SampleRow} {row : SampleRow}

/-- Each of some samples is due after the rows and the samples before it. -/
def AllDue (interval : Int) : List SampleRow → List Sample → Prop
  | _, [] => True
  | rows, x :: rest => x.IsDue interval rows ∧ AllDue interval (rows ++ [x.row]) rest

theorem allDue_append {xs ys : List Sample} : AllDue interval rows (xs ++ ys) ↔
    AllDue interval rows xs ∧ AllDue interval (rows ++ xs.map Sample.row) ys := by
  induction xs generalizing rows with
  | nil => simp [AllDue]
  | cons x rest ih => simp [AllDue, ih, and_assoc]

/-- The row of a sample keeps its distance from all rows before it. -/
theorem AllDue.keepsDistance {xs : List Sample} (h : AllDue interval rows xs)
    (hsplit : rows ++ xs.map Sample.row = before ++ row :: after)
    (hlength : rows.length ≤ before.length) : row.KeepsDistance interval before := by
  induction xs generalizing rows with
  | nil =>
      have hlengths := congrArg List.length hsplit
      simp only [List.map_nil, List.append_nil, List.length_append, List.length_cons] at hlengths
      omega
  | cons x rest ih =>
      obtain ⟨hdue, hrest⟩ := h
      by_cases heq : rows.length = before.length
      · obtain ⟨rfl, htail⟩ := List.append_inj hsplit heq
        obtain ⟨rfl, -⟩ := List.cons.inj htail
        exact hdue
      · apply ih hrest
        · rw [← hsplit, List.append_assoc]
          rfl
        · rw [List.length_append, List.length_singleton]
          omega

end Sample

namespace Store

open Sample (AllDue)

/-! ## Runs with one interval -/

/-- An operation that leaves the interval as it is: the store is opened again with the same one. -/
def Operation.HasInterval (interval : Int) : Operation → Prop
  | reopen interval' => interval' = interval
  | _ => True

instance (interval : Int) : DecidablePred (Operation.HasInterval interval)
  | .reopen interval' => inferInstanceAs (Decidable (interval' = interval))
  | .start _ _ | .recordEvent _ _ | .recordSample _ _ _ _ | .stableRandom _ _ => .isTrue trivial

variable {s : Store} {op : Operation} {ops : List Operation}

theorem interval_run (h : op.HasInterval s.interval) : (op.run s).interval = s.interval := by
  cases op with
  | reopen interval => exact h
  | start hasDirectory now =>
      simp only [Operation.run, start]
      split
      · rfl
      · split <;> rfl
  | recordEvent event now =>
      simp only [Operation.run, recordEvent]
      split <;> rfl
  | recordSample name value sampling now =>
      simp only [Operation.run, recordSample]
      split
      · rfl
      · split <;> rfl
  | stableRandom candidate now =>
      simp only [Operation.run, stableRandom]
      split
      · rfl
      · split
        · rfl
        · split <;> rfl

theorem interval_after (h : ∀ op ∈ ops, op.HasInterval s.interval) :
    (s.after ops).interval = s.interval := by
  induction ops generalizing s with
  | nil => rfl
  | cons op rest ih =>
      obtain ⟨hop, hrest⟩ := List.forall_mem_cons.1 h
      rw [← interval_run hop] at hrest
      exact (ih hrest).trans (interval_run hop)

/-! ## What an operation records -/

/-- What the clock shows at an operation. -/
def Operation.time? : Operation → Option Instant
  | reopen _ => none
  | start _ now | recordEvent _ now | recordSample _ _ _ now | stableRandom _ now => some now

/-- An operation records nothing, or what is due of some samples at its time. -/
theorem samples_cases (s : Store) (op : Operation) : op.samples s = [] ∨
    ∃ now buffer, op.time? = some now ∧
      op.samples s = flushed s.interval now s.ledger.samples buffer := by
  have hone {x : Sample} (hdue : x.IsDue s.interval s.ledger.samples) : [x] =
      flushed s.interval x.stamp s.ledger.samples [(x.name, ⟨x.value, x.sampling⟩)] := by
    rw [flushed, if_pos hdue]
    rfl
  cases op with
  | reopen interval => exact .inl rfl
  | start hasDirectory now =>
      rw [Operation.samples]
      cases s.phase with
      | started => exact .inl rfl
      | waiting buffer =>
          cases hasDirectory with
          | false => exact .inl rfl
          | true => exact .inr ⟨now, buffer, rfl, rfl⟩
  | recordEvent event now => exact .inl rfl
  | recordSample name value sampling now =>
      rw [Operation.samples]
      split
      case isTrue h => exact .inr ⟨now, _, rfl, hone h.2.2.2⟩
      case isFalse => exact .inl rfl
  | stableRandom candidate now =>
      rw [Operation.samples]
      split
      case isTrue => exact .inr ⟨now, _, rfl, hone (isDue_of_ne (by simp))⟩
      case isFalse => exact .inl rfl

/-! ## Distances -/

theorem allDue_flushed (interval : Int) (now : Instant) (rows : List SampleRow)
    (buffer : List (String × WaitingSample)) :
    AllDue interval rows (flushed interval now rows buffer) := by
  induction buffer generalizing rows with
  | nil => trivial
  | cons first rest ih =>
      rw [flushed]
      split
      case isTrue hdue => exact ⟨hdue, ih _⟩
      case isFalse => exact ih rows

/-- What an operation records is due. -/
theorem allDue_samples (s : Store) (op : Operation) :
    AllDue s.interval s.ledger.samples (op.samples s) := by
  obtain hnone | ⟨now, buffer, -, hsamples⟩ := samples_cases s op
  · rw [hnone]
    trivial
  · rw [hsamples]
    exact allDue_flushed _ _ _ _

/-- What a run with one interval records is due. -/
theorem allDue_samplesOf (h : ∀ op ∈ ops, op.HasInterval s.interval) :
    AllDue s.interval s.ledger.samples (s.samplesOf ops) := by
  induction ops generalizing s with
  | nil => trivial
  | cons op rest ih =>
      obtain ⟨hop, hrest⟩ := List.forall_mem_cons.1 h
      rw [← interval_run hop] at hrest
      have hdue := ih hrest
      rw [interval_run hop, ledger_run] at hdue
      exact Sample.allDue_append.2 ⟨allDue_samples s op, hdue⟩

/-! ## Clocks that are never set back -/

/-- The clock was never set back, neither between the rows so far nor in a run. -/
def ClockAscends (s : Store) (ops : List Operation) : Prop :=
  (s.ledger.samples.map SampleRow.stamp ++ ops.filterMap Operation.time?).Pairwise (· ≤ ·)

instance (s : Store) (ops : List Operation) : Decidable (s.ClockAscends ops) :=
  inferInstanceAs (Decidable (List.Pairwise _ _))

theorem stamp_of_mem_flushed {interval : Int} {now : Instant} {rows : List SampleRow}
    {buffer : List (String × WaitingSample)} {x : Sample}
    (h : x ∈ flushed interval now rows buffer) : x.stamp = now := by
  induction buffer generalizing rows with
  | nil => cases h
  | cons first rest ih =>
      rw [flushed] at h
      split at h
      · obtain rfl | hrest := List.mem_cons.1 h
        · rfl
        · exact ih hrest
      · exact ih h

/-- Samples are stamped with what the clock shows. -/
theorem time?_of_mem_samples {x : Sample} (h : x ∈ op.samples s) : op.time? = some x.stamp := by
  obtain hnone | ⟨now, buffer, htime, hsamples⟩ := samples_cases s op
  · rw [hnone] at h
    cases h
  · rw [hsamples] at h
    rw [htime, stamp_of_mem_flushed h]

theorem clockAscends_run (h : s.ClockAscends (op :: ops)) : (op.run s).ClockAscends ops := by
  have hstamps : ∀ t ∈ ((op.samples s).map Sample.row).map SampleRow.stamp, op.time? = some t := by
    simp only [List.map_map, List.mem_map]
    rintro t ⟨x, hx, rfl⟩
    exact time?_of_mem_samples hx
  rw [ClockAscends, ledger_run, List.map_append, List.append_assoc]
  rw [ClockAscends, List.filterMap_cons] at h
  generalize ((op.samples s).map Sample.row).map SampleRow.stamp = stamps at *
  cases htime : op.time? with
  | none =>
      rw [htime] at h hstamps
      have hnone : stamps = [] :=
        List.eq_nil_iff_forall_not_mem.2 fun t ht => by cases hstamps t ht
      rw [hnone]
      exact h
  | some now =>
      rw [htime] at h hstamps
      have hnow : ∀ t ∈ stamps, t = now := fun t ht => (Option.some.inj (hstamps t ht)).symm
      obtain ⟨hrows, hrest, hbefore⟩ := List.pairwise_append.1 h
      obtain ⟨hlater, hops⟩ := List.pairwise_cons.1 hrest
      have hsame : stamps.Pairwise (· ≤ ·) := List.pairwise_of_forall_mem_list fun t ht u hu => by
        rw [hnow t ht, hnow u hu]
        exact Instant.le_refl now
      refine List.pairwise_append.2 ⟨hrows, List.pairwise_append.2 ⟨hsame, hops, ?_⟩, ?_⟩
      · intro t ht u hu
        rw [hnow t ht]
        exact hlater u hu
      · intro t ht u hu
        obtain hstamp | hop := List.mem_append.1 hu
        · rw [hnow u hstamp]
          exact hbefore t ht now List.mem_cons_self
        · exact hbefore t ht u (List.mem_cons_of_mem now hop)

theorem pairwise_stamp_after (h : s.ClockAscends ops) :
    ((s.after ops).ledger.samples.map SampleRow.stamp).Pairwise (· ≤ ·) := by
  induction ops generalizing s with
  | nil => exact (List.pairwise_append.1 h).1
  | cons op rest ih => exact ih (clockAscends_run h)

/-- A row with a smaller stamp was recorded before. -/
theorem mem_of_stamp_lt (hclock : s.ClockAscends ops) {before after : List SampleRow}
    {row other : SampleRow} (hsplit : (s.after ops).ledger.samples = before ++ row :: after)
    (hother : other ∈ (s.after ops).ledger.samples) (hlt : other.stamp < row.stamp) :
    other ∈ before := by
  have hascends := pairwise_stamp_after hclock
  rw [hsplit, List.map_append, List.map_cons, List.pairwise_append, List.pairwise_cons] at hascends
  obtain ⟨-, ⟨hafter, -⟩, -⟩ := hascends
  rw [hsplit, List.mem_append, List.mem_cons] at hother
  obtain hbefore | rfl | hmem := hother
  · exact hbefore
  · exact absurd hlt (Instant.not_lt.2 (Instant.le_refl _))
  · exact absurd hlt (Instant.not_lt.2 (hafter _ (List.mem_map_of_mem hmem)))

/-! ## The limit -/

/-- What a store that has been started does with a sample. -/
structure RecordsSample (s : Store) (interval : Int) (x : Sample) : Prop where
  staysStarted : (s.recordSample x.name x.value x.sampling x.stamp).isStarted
  unlimited : x.name ≠ "" → x.sampling = .appStart ∨ x.sampling = .onCustomSet →
    (s.recordSample x.name x.value x.sampling x.stamp).ledger.samples = s.ledger.samples ++ [x.row]
  ignored : x.name = "" ∨ x.sampling = .never →
    (s.recordSample x.name x.value x.sampling x.stamp).ledger.samples = s.ledger.samples
  limited : x.name ≠ "" → x.sampling = .onUse →
    (s.recordSample x.name x.value x.sampling x.stamp).ledger.samples = s.ledger.samples ++
      if ∀ row ∈ s.ledger.samples, row.name = x.name →
        interval ≤ x.stamp.micros - row.stamp.micros then [x.row] else []
  others : ∀ other ≠ x.name,
    (s.recordSample x.name x.value x.sampling x.stamp).ledger.samplesNamed other =
      s.ledger.samplesNamed other

theorem isStarted_recordSample (s : Store) (x : Sample) :
    (s.recordSample x.name x.value x.sampling x.stamp).isStarted = s.isStarted := by
  rw [recordSample]
  split
  · rfl
  · rw [isStarted, isStarted]
    cases s.phase <;> rfl

theorem isStarted_stableRandom (s : Store) (candidate : Int64) (now : Instant) :
    (s.stableRandom candidate now).2.isStarted = s.isStarted := by
  rw [stableRandom]
  split
  · rfl
  · split
    · rfl
    · split <;> rfl

theorem recordsSample_of_isStarted (hstarted : s.isStarted) (x : Sample) :
    s.RecordsSample s.interval x := by
  have hsamples : (s.recordSample x.name x.value x.sampling x.stamp).ledger.samples =
      s.ledger.samples ++ if x.name ≠ "" ∧ x.sampling ≠ .never ∧
        x.IsDue s.interval s.ledger.samples then [x.row] else [] := by
    rw [ledger_recordSample, Operation.samples]
    simp [hstarted, apply_ite (List.map Sample.row)]
  constructor
  case staysStarted =>
    rw [isStarted_recordSample]
    exact hstarted
  case unlimited =>
    intro hname hsampling
    have hne : x.sampling ≠ .never ∧ x.sampling ≠ .onUse := by
      obtain h | h := hsampling <;> simp [h]
    rw [hsamples, if_pos ⟨hname, hne.1, isDue_of_ne hne.2⟩]
  case ignored =>
    intro hskip
    rw [hsamples, if_neg (by tauto), List.append_nil]
  case limited =>
    intro hname honUse
    have hnever : x.sampling ≠ .never := by simp [honUse]
    rw [hsamples]
    exact congrArg (s.ledger.samples ++ ·) (if_congr
      ⟨fun h => h.2.2 honUse, fun h => ⟨hname, hnever, fun _ => h⟩⟩ rfl rfl)
  case others =>
    intro other hother
    rw [Ledger.samplesNamed, hsamples, List.filter_append]
    split
    · simp [Sample.row, hother.symm, Ledger.samplesNamed]
    · exact List.append_nil _

/-- **Sampling is limited** in any run of a store that keeps its interval, whatever the directory
held before. At any moment after the start each sample is recorded or not as it should be. A row of
the run that a condition caused keeps its distance from all rows that were recorded before it; if
the clock is never set back, these include all rows with smaller stamps. -/
theorem sampling_is_limited (hinterval : ∀ op ∈ ops, op.HasInterval s.interval)
    (hstarted : (s.after ops).isStarted) :
    (∀ x, (s.after ops).RecordsSample s.interval x) ∧
    ∀ before row after, (s.after ops).ledger.samples = before ++ row :: after →
      s.ledger.samples.length ≤ before.length →
      row.KeepsDistance s.interval before ∧
      (s.ClockAscends ops → row.KeepsDistance s.interval
        ((s.after ops).ledger.samples.filter fun other => other.stamp < row.stamp)) := by
  refine ⟨fun x => ?_, fun before row after hsplit hlength => ?_⟩
  · rw [← interval_after hinterval]
    exact recordsSample_of_isStarted hstarted x
  · have hbefore : row.KeepsDistance s.interval before := by
      apply (allDue_samplesOf hinterval).keepsDistance _ hlength
      · exact after
      · rw [← hsplit, ledger_after]
    refine ⟨hbefore, fun hclock honUse other hother => ?_⟩
    obtain ⟨hmem, hstamp⟩ := List.mem_filter.1 hother
    have hearlier := mem_of_stamp_lt hclock hsplit hmem (of_decide_eq_true hstamp)
    exact hbefore honUse other hearlier

/-- The charge of a battery is recorded at the start of an app. A condition reads it too soon
afterwards, another property in between, and the charge again as soon as it may be recorded. -/
def charges : List Operation :=
  [.start true ⟨10⟩, .recordSample "charge" (.int 80) .appStart ⟨12⟩,
    .recordSample "charge" (.int 79) .onUse ⟨16⟩, .recordSample "volume" (.int 3) .onUse ⟨16⟩,
    .recordSample "charge" (.int 78) .onUse ⟨17⟩]

/-- The last row keeps its distance. The next one that a condition causes comes too soon at one
moment and is recorded at the next, and one that the app causes is recorded even before. -/
theorem charges_are_limited : let s := (ofLedger 5 .empty).after charges
    let last : Sample := ⟨"charge", .int 78, .onUse, ⟨17⟩⟩
    last.row.KeepsDistance 5 (s.ledger.samples.filter fun other => other.stamp < ⟨17⟩) ∧
    (s.recordSample "charge" (.int 77) .onUse ⟨21⟩).ledger.samples = s.ledger.samples ∧
    (s.recordSample "charge" (.int 77) .onUse ⟨22⟩).ledger.samples =
      s.ledger.samples ++ [(⟨"charge", .int 77, .onUse, ⟨22⟩⟩ : Sample).row] ∧
    (s.recordSample "charge" (.int 77) .onCustomSet ⟨18⟩).ledger.samples =
      s.ledger.samples ++ [(⟨"charge", .int 77, .onCustomSet, ⟨18⟩⟩ : Sample).row] := by
  obtain ⟨hrecords, hdistance⟩ := @sampling_is_limited (ofLedger 5 .empty) charges
    (by decide) (by decide)
  have hclock : (ofLedger 5 .empty).ClockAscends charges := by decide
  let earlier : List Sample :=
    [⟨"charge", .int 80, .appStart, ⟨12⟩⟩, ⟨"volume", .int 3, .onUse, ⟨16⟩⟩]
  refine ⟨(hdistance (earlier.map Sample.row) _ [] (by decide) (by decide)).2 hclock, ?_, ?_, ?_⟩
  · rw [(hrecords ⟨"charge", .int 77, .onUse, ⟨21⟩⟩).limited (by decide) rfl, if_neg (by decide),
      List.append_nil]
  · rw [(hrecords ⟨"charge", .int 77, .onUse, ⟨22⟩⟩).limited (by decide) rfl, if_pos (by decide)]
  · exact (hrecords ⟨"charge", .int 77, .onCustomSet, ⟨18⟩⟩).unlimited (by decide) (.inr rfl)

end Store

end Targeting
