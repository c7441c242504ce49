/-
# Opening a store

Before a store is started it keeps what it cannot record yet: the last sample of each property. It
refuses everything else, and a start without a directory changes nothing, so what waits depends on
the samples alone. The start that succeeds writes what waits and no more. As there is one sample for
each name and a sample has to keep its distance from rows of its own name only, the samples do not
get in each other's way, in whatever order they are written. After that the store stays as it is
when it is started again.
-/

import Mathlib.Data.List.Nodup
import Targeting.Proofs.History.Sampling
import Targeting.Proofs.Text.SortedNames

namespace Targeting

open Calendar (Instant)

namespace Sample

variable {interval : Int} {rows more : List SampleRow} {x : Sample}

/-- Rows of other names do not matter. -/
theorem isDue_append_iff_of_ne (h : ∀ row ∈ more, row.name ≠ x.name) :
    x.IsDue interval (rows ++ more) ↔ x.IsDue interval rows := by
  refine imp_congr_right fun _ => ⟨fun hold row hrow => ?_, fun hold row hrow hname => ?_⟩
  · exact hold row (List.mem_append_left more hrow)
  · obtain hrow | hmore := List.mem_append.1 hrow
    · exact hold row hrow hname
    · exact absurd hname (h row hmore)

end Sample

namespace Store

/-! ## What waits -/

/-- An operation before the store is opened: the directory is missing whenever a start looks for it,
and no other store takes the place of this one. -/
def Operation.IsEarly : Operation → Prop
  | reopen _ => False
  | start hasDirectory _ => hasDirectory = false
  | _ => True

instance : DecidablePred Operation.IsEarly
  | .reopen _ => .isFalse id
  | .start hasDirectory _ => inferInstanceAs (Decidable (hasDirectory = false))
  | .recordEvent _ _ | .recordSample _ _ _ _ | .stableRandom _ _ => .isTrue trivial

/-- The sample of a property that an operation brings. -/
def Operation.brings? (name : String) : Operation → Option WaitingSample
  | recordSample other value sampling _ =>
    if other = name ∧ name ≠ "" ∧ sampling ≠ .never then some ⟨value, sampling⟩ else none
  | _ => none

/-- The last sample of a property that some operations bring. -/
def lastBrought? (ops : List Operation) (name : String) : Option WaitingSample :=
  (ops.filterMap (Operation.brings? name)).getLast?

/-- A sample that waited, as it is recorded at the start. -/
def sampleAt (now : Instant) (entry : String × WaitingSample) : Sample :=
  ⟨entry.1, entry.2.value, entry.2.sampling, now⟩

variable {interval : Int} {l : Ledger} {now : Instant} {ops : List Operation}
  {buffer : List (String × WaitingSample)}

/-- A table holds the last sample of each property that some operations bring, and nothing else. -/
structure Keeps (buffer : List (String × WaitingSample)) (ops : List Operation) : Prop where
  sorted : NameMap.IsSorted buffer
  holds : ∀ name waiting, (name, waiting) ∈ buffer ↔ lastBrought? ops name = some waiting

theorem lastBrought?_concat (ops : List Operation) (op : Operation) (name : String) :
    lastBrought? (ops ++ [op]) name = (op.brings? name).or (lastBrought? ops name) := by
  rw [lastBrought?, List.filterMap_append, List.getLast?_append]
  cases hbrings : op.brings? name with
  | none => simp [hbrings, lastBrought?]
  | some waiting => simp [hbrings]

theorem keeps_nil : Keeps [] [] :=
  ⟨List.Pairwise.nil, fun _ _ => ⟨nofun, nofun⟩⟩

/-- What brings no sample leaves the table right as it is. -/
theorem Keeps.concat_of_brings?_eq_none {op : Operation} (h : Keeps buffer ops)
    (hnone : ∀ name, op.brings? name = none) : Keeps buffer (ops ++ [op]) := by
  refine ⟨h.sorted, fun name waiting => ?_⟩
  rw [lastBrought?_concat, hnone, Option.none_or, h.holds]

/-- A sample takes the place of the one that waited under its name. -/
theorem Keeps.insert {name : String} {waiting : WaitingSample} {op : Operation}
    (h : Keeps buffer ops)
    (hbrings : ∀ other, op.brings? other = if name = other then some waiting else none) :
    Keeps (NameMap.insert name waiting buffer) (ops ++ [op]) := by
  refine ⟨NameMap.isSorted_insert h.sorted, fun other found => ?_⟩
  rw [NameMap.mem_insert_iff h.sorted, lastBrought?_concat, hbrings]
  by_cases heq : other = name
  · rw [if_pos heq, if_pos heq.symm, Option.some_or, Option.some.injEq, eq_comm]
  · rw [if_neg heq, if_neg (Ne.symm heq), Option.none_or, h.holds]

/-- An early operation changes nothing but what waits. -/
theorem exists_keeps_run {op : Operation} (hearly : op.IsEarly) (h : Keeps buffer ops) :
    ∃ buffer', op.run ⟨interval, l, .waiting buffer⟩ = ⟨interval, l, .waiting buffer'⟩ ∧
      Keeps buffer' (ops ++ [op]) := by
  cases op with
  | reopen _ => exact hearly.elim
  | start hasDirectory now =>
      obtain rfl : hasDirectory = false := hearly
      exact ⟨buffer, rfl, h.concat_of_brings?_eq_none fun _ => rfl⟩
  | recordEvent event now => exact ⟨buffer, rfl, h.concat_of_brings?_eq_none fun _ => rfl⟩
  | stableRandom candidate now => exact ⟨buffer, rfl, h.concat_of_brings?_eq_none fun _ => rfl⟩
  | recordSample name value sampling now =>
      by_cases hskip : name = "" ∨ sampling = .never
      · refine ⟨buffer, if_pos hskip, h.concat_of_brings?_eq_none fun other => if_neg ?_⟩
        rintro ⟨rfl, hname, hsampling⟩
        exact hskip.elim hname hsampling
      · refine ⟨_, if_neg hskip, h.insert fun other => if_congr ?_ rfl rfl⟩
        rw [not_or] at hskip
        exact ⟨And.left, fun heq => ⟨heq, heq ▸ hskip⟩⟩

/-- After early operations the last samples wait, and the directory is as it was. -/
theorem exists_keeps_after (hearly : ∀ op ∈ ops, op.IsEarly) :
    ∃ buffer, (ofLedger interval l).after ops = ⟨interval, l, .waiting buffer⟩ ∧
      Keeps buffer ops := by
  induction ops using List.reverseRecOn with
  | nil => exact ⟨[], rfl, keeps_nil⟩
  | append_singleton ops op ih =>
      obtain ⟨hops, hop⟩ := List.forall_mem_append.1 hearly
      obtain ⟨buffer, hafter, hkeeps⟩ := ih hops
      have hlast : (ofLedger interval l).after (ops ++ [op]) =
          op.run ((ofLedger interval l).after ops) := List.foldl_concat ..
      rw [hlast, hafter]
      exact exists_keeps_run (hop op List.mem_cons_self) hkeeps

/-! ## What the start writes -/

/-- Samples under different names are written if they are due already. -/
theorem flushed_eq_filter (hnames : (buffer.map Prod.fst).Nodup) (rows : List SampleRow) :
    flushed interval now rows buffer =
      (buffer.map (sampleAt now)).filter fun x => x.IsDue interval rows := by
  induction buffer generalizing rows with
  | nil => rfl
  | cons first rest ih =>
      obtain ⟨name, waiting⟩ := first
      obtain ⟨hname, hrest⟩ := List.nodup_cons.1 hnames
      let x := sampleAt now (name, waiting)
      have hothers :
          (rest.map (sampleAt now)).filter (fun y => y.IsDue interval (rows ++ [x.row])) =
            (rest.map (sampleAt now)).filter fun y => y.IsDue interval rows := by
        refine List.filter_congr fun y hy => decide_eq_decide.2 (Sample.isDue_append_iff_of_ne ?_)
        obtain ⟨entry, hentry, rfl⟩ := List.mem_map.1 hy
        intro row hrow heq
        rw [List.mem_singleton.1 hrow] at heq
        exact hname (List.mem_map.2 ⟨entry, hentry, heq.symm⟩)
      rw [flushed, List.map_cons, List.filter_cons]
      change (if x.IsDue interval rows then x :: flushed interval now (rows ++ [x.row]) rest
        else flushed interval now rows rest) = _
      by_cases hdue : x.IsDue interval rows
      · rw [if_pos hdue, if_pos (decide_eq_true hdue), ih hrest, hothers]
      · rw [if_neg hdue, if_neg (by simpa using hdue), ih hrest]

/-- What a start writes: for each property the last sample that was brought, once, if it is due
after the rows that the directory holds. -/
structure IsFlush (interval : Int) (l : Ledger) (ops : List Operation) (now : Instant)
    (written : List Sample) : Prop where
  once : (written.map Sample.name).Nodup
  mem_iff : ∀ x, x ∈ written ↔ lastBrought? ops x.name = some ⟨x.value, x.sampling⟩ ∧
    x.stamp = now ∧ x.IsDue interval l.samples

theorem isFlush_of_keeps (h : Keeps buffer ops) :
    IsFlush interval l ops now (flushed interval now l.samples buffer) := by
  have hnames := NameMap.nodup_of_isSorted h.sorted
  rw [flushed_eq_filter hnames]
  constructor
  case once =>
    have hall : ((buffer.map (sampleAt now)).map Sample.name).Nodup := by
      rw [List.map_map]
      exact hnames
    exact hall.sublist (List.filter_sublist.map Sample.name)
  case mem_iff =>
    intro x
    rw [List.mem_filter, decide_eq_true_iff, ← and_assoc]
    refine and_congr_left fun _ => ?_
    rw [← h.holds, List.mem_map]
    constructor
    · rintro ⟨entry, hentry, rfl⟩
      exact ⟨hentry, rfl⟩
    · rintro ⟨hentry, rfl⟩
      exact ⟨_, hentry, rfl⟩

/-- In another order the same samples are written. -/
theorem flushed_perm (hnames : (buffer.map Prod.fst).Nodup) {order : List (String × WaitingSample)}
    (hperm : order.Perm buffer) (rows : List SampleRow) :
    (flushed interval now rows order).Perm (flushed interval now rows buffer) := by
  have hordered : (order.map Prod.fst).Nodup := (hperm.map Prod.fst).nodup_iff.2 hnames
  rw [flushed_eq_filter hordered, flushed_eq_filter hnames]
  exact (hperm.map (sampleAt now)).filter _

/-! ## Opening -/

/-- A store refuses everything but samples, and what it refuses changes nothing. -/
structure Refuses (s : Store) : Prop where
  event : ∀ event now, s.recordEvent event now = (.error .notStarted, s)
  stableRandom : ∀ candidate now, s.stableRandom candidate now = (.error .notStarted, s)
  count : ∀ name, s.eventCount name = .error .notStarted
  limited : ∀ name limit, s.eventCountUpTo name limit = .error .notStarted
  latest : ∀ name, s.latestEvent name = .error .notStarted
  first : ∀ name, s.firstEvent name = .error .notStarted
  all : ∀ name, s.eventTimes name = .error .notStarted
  value : ∀ name, s.latestValue name = .error .notStarted
  ever : ∀ name value, s.everHad name value = .error .notStarted

theorem refuses_of_waiting (interval : Int) (l : Ledger) (buffer : List (String × WaitingSample)) :
    (Store.mk interval l (.waiting buffer)).Refuses := by
  constructor <;> intros <;> rfl

theorem start_of_isStarted {s : Store} (h : s.isStarted) (hasDirectory : Bool) (now : Instant) :
    s.start hasDirectory now = (.ok (), s) := by
  obtain ⟨interval, l, phase⟩ := s
  cases phase with
  | started => rfl
  | waiting buffer => cases h

/-- A started store stays so until there is another one in its place. -/
theorem isStarted_run {s : Store} (h : s.isStarted) {op : Operation}
    (hsame : ∀ interval, op ≠ .reopen interval) : (op.run s).isStarted := by
  cases op with
  | reopen interval => exact absurd rfl (hsame interval)
  | start hasDirectory now =>
      rw [Operation.run, start_of_isStarted h]
      exact h
  | recordEvent event now =>
      rw [Operation.run, recordEvent_of_isStarted h]
      exact h
  | recordSample name value sampling now =>
      exact (isStarted_recordSample s ⟨name, value, sampling, now⟩).trans h
  | stableRandom candidate now => exact (isStarted_stableRandom s candidate now).trans h

theorem isStarted_after {s : Store} (h : s.isStarted)
    (hsame : ∀ op ∈ ops, ∀ interval, op ≠ .reopen interval) : (s.after ops).isStarted := by
  induction ops generalizing s with
  | nil => exact h
  | cons op rest ih =>
      obtain ⟨hop, hrest⟩ := List.forall_mem_cons.1 hsame
      exact ih (isStarted_run h hop) hrest

/-- **Opening a store loses and duplicates nothing**, whatever the directory held before. Until then
the store refuses everything but samples, and neither that nor a start without a directory changes
anything. The start that succeeds records, for each property, the last sample that was brought, as
it was brought, unless it comes too soon after the rows in the directory; it records nothing else,
and the same in whatever order what waits is written. Later starts change nothing. -/
theorem opening_loses_nothing {interval : Int} {l : Ledger} {ops : List Operation}
    (hearly : ∀ op ∈ ops, op.IsEarly) :
    ((ofLedger interval l).after ops).Refuses ∧
    (∀ now, ((ofLedger interval l).after ops).start false now =
      (.error .noDirectory, (ofLedger interval l).after ops)) ∧
    ∃ buffer, (ofLedger interval l).after ops = ⟨interval, l, .waiting buffer⟩ ∧
      ∀ now, ∃ (written : List Sample) (opened : Store), IsFlush interval l ops now written ∧
        ((ofLedger interval l).after ops).start true now = (.ok (), opened) ∧
        opened = ⟨interval, ⟨l.events, l.samples ++ written.map Sample.row⟩, .started⟩ ∧
        (∀ order, order.Perm buffer → ∃ written' : List Sample, written'.Perm written ∧
          writeAll interval l order now =
            ⟨l.events, l.samples ++ written'.map Sample.row⟩) ∧
        ∀ later, (∀ op ∈ later, ∀ interval, op ≠ .reopen interval) → ∀ hasDirectory now',
          (opened.after later).start hasDirectory now' = (.ok (), opened.after later) := by
  obtain ⟨buffer, hafter, hkeeps⟩ : ∃ buffer, (ofLedger interval l).after ops =
      ⟨interval, l, .waiting buffer⟩ ∧ Keeps buffer ops := exists_keeps_after hearly
  rw [hafter]
  refine ⟨refuses_of_waiting interval l buffer, fun now => rfl, buffer, rfl, fun now => ?_⟩
  refine ⟨_, _, isFlush_of_keeps hkeeps, rfl, ?_, fun order hperm => ?_, fun later hsame => ?_⟩
  · rw [writeAll_eq]
  · exact ⟨_, flushed_perm (NameMap.nodup_of_isSorted hkeeps.sorted) hperm l.samples,
      writeAll_eq order⟩
  · exact start_of_isStarted (isStarted_after rfl hsame)

/-- A plan and a theme wait while two starts fail; the plan is set twice, and then its value is not
to be recorded. Conditions have read a volume and, too soon after a row in the directory, a
charge. -/
def preparations : List Operation :=
  [.recordSample "theme" (.text "dark") .appStart ⟨1⟩, .start false ⟨2⟩,
    .recordSample "plan" (.text "free") .onUse ⟨2⟩, .recordEvent ⟨"tap", .custom⟩ ⟨3⟩,
    .recordSample "plan" (.text "pro") .onCustomSet ⟨3⟩,
    .recordSample "charge" (.int 79) .onUse ⟨3⟩, .recordSample "plan" (.text "none") .never ⟨4⟩,
    .stableRandom 7 ⟨4⟩, .start false ⟨5⟩,
    .recordSample "volume" (.int 3) .onUse ⟨6⟩]

/-- The start records the plan that was set last, the theme and the volume, but not the charge, and
a second start changes nothing. -/
theorem preparations_are_recorded :
    let l : Ledger := ⟨[], [(⟨"charge", .int 80, .appStart, ⟨4⟩⟩ : Sample).row]⟩
    let s := (ofLedger 5 l).after preparations
    s.eventCount "tap" = .error .notStarted ∧ ∃ (written : List Sample) (opened : Store),
      s.start true ⟨8⟩ = (.ok (), opened) ∧
      opened.ledger.samples = l.samples ++ written.map Sample.row ∧
      ⟨"plan", .text "pro", .onCustomSet, ⟨8⟩⟩ ∈ written ∧
      ⟨"theme", .text "dark", .appStart, ⟨8⟩⟩ ∈ written ∧
      ⟨"volume", .int 3, .onUse, ⟨8⟩⟩ ∈ written ∧
      ⟨"charge", .int 79, .onUse, ⟨8⟩⟩ ∉ written ∧
      opened.start false ⟨9⟩ = (.ok (), opened) := by
  intro l s
  obtain ⟨hrefuses, -, buffer, -, hstart⟩ :=
    @opening_loses_nothing 5 l preparations (by decide)
  obtain ⟨written, opened, hflush, hopened, rfl, -, hlater⟩ := hstart ⟨8⟩
  refine ⟨hrefuses.count "tap", written, _, hopened, rfl, ?_, ?_, ?_, ?_,
    hlater [] nofun false ⟨9⟩⟩
  · exact (hflush.mem_iff _).2 (by decide)
  · exact (hflush.mem_iff _).2 (by decide)
  · exact (hflush.mem_iff _).2 (by decide)
  · exact mt (hflush.mem_iff _).1 (by decide)

end Store

end Targeting
