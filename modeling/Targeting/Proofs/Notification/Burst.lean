/-
# Bursts of events

A notification that counts from the latest event, but once, is delivered once for a
burst of events. The search goes through the events in order and stops at the first
one that ends a burst: it is the last event, or the next one comes after its delivery.
What comes after that delivery is never looked at, so later events do not move it.

Without a wait only events of the same time belong to one burst, and the first event
answers for all of them. That is why the history is asked for the first event alone.
-/

import Mathlib.Order.Bounds.Defs
import Mathlib.Order.Nat
import Targeting.Notification.Due
import Targeting.Proofs.History.Occurrences
import Targeting.Proofs.History.Recording

namespace Targeting

open Calendar (Instant)
open Ledger (Precedes)

/-- An event comes after the delivery that is counted from an earlier one. Nothing comes after a
delivery beyond the calendar. -/
def MissesDelivery (seconds : Int) (t next : Instant) : Prop :=
  ∃ delivery, t.addSeconds? seconds = some delivery ∧ delivery < next

/-- The event at a position ends a burst: no event follows, or the next one comes after the
delivery. -/
def EndsBurst (seconds : Int) (times : List Instant) (i : Nat) : Prop :=
  ∃ t, times[i]? = some t ∧ ∀ next, times[i + 1]? = some next → MissesDelivery seconds t next

section

variable {seconds : Int} {first next t : Instant} {rest later times : List Instant} {i : Nat}

/-! ## One event after the other -/

theorem burstEnd_cons_of_misses (h : MissesDelivery seconds first next) (rest : List Instant) :
    burstEnd seconds first (next :: rest) = first := by
  obtain ⟨delivery, hdelivery, hlt⟩ := h
  rw [burstEnd, hdelivery]
  exact if_pos hlt

theorem burstEnd_cons_of_not_misses (h : ¬ MissesDelivery seconds first next)
    (rest : List Instant) :
    burstEnd seconds first (next :: rest) = burstEnd seconds next rest := by
  rw [burstEnd]
  cases hdelivery : first.addSeconds? seconds with
  | none => rfl
  | some delivery => exact if_neg fun hlt => h ⟨delivery, hdelivery, hlt⟩

theorem endsBurst_singleton : EndsBurst seconds [first] 0 := ⟨first, rfl, by simp⟩

theorem endsBurst_zero_iff :
    EndsBurst seconds (first :: next :: rest) 0 ↔ MissesDelivery seconds first next := by
  simp [EndsBurst]

theorem endsBurst_succ_iff : EndsBurst seconds (first :: rest) (i + 1) ↔ EndsBurst seconds rest i :=
  Iff.rfl

/-- If the first event does not end a burst, the search goes on behind it. -/
theorem isLeast_succ (hnot : ¬ EndsBurst seconds (first :: rest) 0)
    (h : IsLeast {i | EndsBurst seconds rest i} i) :
    IsLeast {i | EndsBurst seconds (first :: rest) i} (i + 1) := by
  refine ⟨endsBurst_succ_iff.2 h.1, fun j hj => ?_⟩
  cases j with
  | zero => exact absurd hj hnot
  | succ j => exact Nat.succ_le_succ (h.2 (endsBurst_succ_iff.1 hj))

/-- The search stops at the first event that ends a burst. -/
theorem exists_isLeast_endsBurst (seconds : Int) (first : Instant) (rest : List Instant) :
    ∃ i, IsLeast {i | EndsBurst seconds (first :: rest) i} i ∧
      (first :: rest)[i]? = some (burstEnd seconds first rest) := by
  induction rest generalizing first with
  | nil => exact ⟨0, ⟨endsBurst_singleton, fun _ _ => Nat.zero_le _⟩, rfl⟩
  | cons next rest ih =>
      by_cases h : MissesDelivery seconds first next
      · rw [burstEnd_cons_of_misses h]
        exact ⟨0, ⟨endsBurst_zero_iff.2 h, fun _ _ => Nat.zero_le _⟩, rfl⟩
      · rw [burstEnd_cons_of_not_misses h]
        obtain ⟨i, hleast, hi⟩ := ih next
        exact ⟨i + 1, isLeast_succ (fun hzero => h (endsBurst_zero_iff.1 hzero)) hleast, hi⟩

/-- Events after the delivery do not belong to the burst. -/
theorem burstEnd_append (h : ∀ e ∈ later, MissesDelivery seconds (burstEnd seconds first rest) e) :
    burstEnd seconds first (rest ++ later) = burstEnd seconds first rest := by
  induction rest generalizing first with
  | nil =>
      cases later with
      | nil => rfl
      | cons e later => exact burstEnd_cons_of_misses (h e List.mem_cons_self) later
  | cons next rest ih =>
      rw [List.cons_append]
      by_cases hnext : MissesDelivery seconds first next
      · rw [burstEnd_cons_of_misses hnext, burstEnd_cons_of_misses hnext]
      · rw [burstEnd_cons_of_not_misses hnext, burstEnd_cons_of_not_misses hnext]
        rw [burstEnd_cons_of_not_misses hnext] at h
        exact ih h

theorem latestOnce?_append (hlatest : latestOnce? seconds times = some t)
    (h : ∀ e ∈ later, MissesDelivery seconds t e) :
    latestOnce? seconds (times ++ later) = some t := by
  cases times with
  | nil => cases hlatest
  | cons first rest =>
      cases hlatest
      exact congrArg some (burstEnd_append h)

/-! ## Without a wait -/

theorem missesDelivery_zero_iff (ht : t.inRange) : MissesDelivery 0 t next ↔ t < next := by
  have hsame : t.addSeconds? 0 = some t := by
    rw [Instant.addSeconds?, Int.zero_mul, Int.add_zero]
    exact if_pos ht
  simp [MissesDelivery, hsame]

/-- Events of the same time are one burst. -/
theorem burstEnd_zero (hfirst : first.inRange) (hascending : (first :: rest).Pairwise (· ≤ ·)) :
    burstEnd 0 first rest = first := by
  induction rest with
  | nil => rfl
  | cons next rest ih =>
      obtain ⟨hle, hrest⟩ := List.pairwise_cons.1 hascending
      by_cases hlt : first < next
      · exact burstEnd_cons_of_misses ((missesDelivery_zero_iff hfirst).2 hlt) rest
      · have hsame : next = first :=
          Instant.le_antisymm (Instant.not_lt.1 hlt) (hle next List.mem_cons_self)
        subst hsame
        rw [burstEnd_cons_of_not_misses fun h => hlt ((missesDelivery_zero_iff hfirst).1 h)]
        exact ih hrest

theorem latestOnce?_zero (hascending : times.Pairwise (· ≤ ·)) (hrange : ∀ t ∈ times, t.inRange) :
    latestOnce? 0 times = times.head? := by
  cases times with
  | nil => rfl
  | cons first rest =>
      exact congrArg some (burstEnd_zero (hrange first List.mem_cons_self) hascending)

end

/-! ## In the history -/

namespace Store

variable {store : Store} {event : String}

/-- The times at which an event was recorded, if they are times of the calendar. -/
theorem exists_ascending (hstarted : store.isStarted)
    (hrows : ∀ row ∈ store.ledger.eventsNamed event, row.stamp.inRange) :
    ∃ times, store.Tells event times ∧ times.Pairwise (· ≤ ·) ∧
      times.Perm ((store.ledger.eventsNamed event).map EventRow.stamp) := by
  obtain ⟨ordered, hordered, htells⟩ := exists_tells hstarted event
  have hinRange : ∀ entry ∈ ordered, entry.1.stamp.inRange := by
    intro entry hentry
    exact hrows _ (List.fst_mem_of_mem_zipIdx (hordered.perm.mem_iff.1 hentry))
  rw [Ledger.timesOf_eq_map_stamp hinRange] at htells
  have hstamps : (store.ledger.eventsNamed event).zipIdx.map (fun entry => entry.1.stamp) =
      (store.ledger.eventsNamed event).map EventRow.stamp := by
    rw [show (fun entry : EventRow × Nat => entry.1.stamp) = EventRow.stamp ∘ Prod.fst from rfl,
      ← List.map_map, List.zipIdx_map_fst]
  exact ⟨_, htells, List.pairwise_map.2 (hordered.pairwise.imp Precedes.le),
    hstamps ▸ hordered.perm.map _⟩

theorem inRange_recordEvent {e : Event} {now : Instant} (hnow : now.inRange)
    (hrows : ∀ row ∈ store.ledger.eventsNamed event, row.stamp.inRange) :
    ∀ row ∈ (store.recordEvent e now).2.ledger.eventsNamed event, row.stamp.inRange := by
  intro row hrow
  by_cases hstarted : store.isStarted
  case neg =>
    rw [recordEvent_of_not_isStarted hstarted] at hrow
    exact hrows row hrow
  case pos =>
    rw [recordEvent_of_isStarted hstarted, Ledger.eventsNamed_addEvent, List.mem_append] at hrow
    obtain hold | hnew := hrow
    · exact hrows row hold
    · obtain rfl := List.mem_singleton.1 (List.mem_ite_nil_right.1 hnew).2
      exact hnow

/-- An event that is recorded now goes behind the times before, if the clock has not been set
back. -/
theorem eventTimes_recordEvent {e : Event} {now : Instant} {times : List Instant}
    (hstarted : store.isStarted)
    (hrows : ∀ row ∈ store.ledger.eventsNamed event, row.stamp.inRange ∧ row.stamp ≤ now)
    (hnow : now.inRange) (htimes : store.eventTimes event = .ok times) :
    (store.recordEvent e now).2.eventTimes event =
      .ok (times ++ if e.name = event then [now] else []) := by
  obtain ⟨before, htells, hascending, hperm⟩ :=
    exists_ascending hstarted fun row hrow => (hrows row hrow).1
  obtain rfl : before = times := Except.ok.inj (htells.all.symm.trans htimes)
  have hpast (t : Instant) (ht : t ∈ before) : t ≤ now := by
    obtain ⟨row, hrow, rfl⟩ := List.mem_map.1 (hperm.mem_iff.1 ht)
    exact (hrows row hrow).2
  have hrecorded : (store.recordEvent e now).2 =
      { store with ledger := store.ledger.addEvent e now } := recordEvent_of_isStarted hstarted
  obtain ⟨all, hall, hallAscending, hallPerm⟩ :=
    exists_ascending (by rw [hrecorded]; exact hstarted)
      (inRange_recordEvent (e := e) hnow fun row hrow => (hrows row hrow).1)
  rw [hall.all]
  refine congrArg Except.ok (List.Perm.eq_of_pairwise (fun _ _ _ _ => Instant.le_antisymm)
    hallAscending ?_ ?_)
  · refine List.pairwise_append.2 ⟨hascending, by split <;> simp, fun t ht later hlater => ?_⟩
    obtain rfl := List.mem_singleton.1 (List.mem_ite_nil_right.1 hlater).2
    exact hpast t ht
  · rw [hrecorded, Ledger.eventsNamed_addEvent, List.map_append] at hallPerm
    refine hallPerm.trans (List.Perm.append hperm.symm ?_)
    split <;> exact List.Perm.refl _

end Store

/-- The first event is the answer of the full list, if there is no wait. -/
theorem Occurrence.time?_latestOnce {store : Store} {event : String} (seconds : Int)
    (hrows : ∀ row ∈ store.ledger.eventsNamed event, row.stamp.inRange) :
    latestOnce.time? store event seconds = (store.eventTimes event).map (latestOnce? seconds) := by
  by_cases hseconds : seconds = 0
  case neg => exact if_neg hseconds
  case pos =>
    subst hseconds
    rw [time?, if_pos rfl]
    by_cases hstarted : store.isStarted
    · obtain ⟨times, htells, hascending, hperm⟩ := Store.exists_ascending hstarted hrows
      have hrange (t : Instant) (ht : t ∈ times) : t.inRange := by
        obtain ⟨row, hrow, rfl⟩ := List.mem_map.1 (hperm.mem_iff.1 ht)
        exact hrows row hrow
      rw [htells.first, htells.all, Except.map, latestOnce?_zero hascending hrange]
    · rw [Store.firstEvent, Store.eventTimes, Store.opened, if_neg hstarted]
      rfl

namespace DueTime

variable {store : Store} {event : String} {seconds : Int} {planned due : Instant}

/-- A notification that counts from the latest event, but once, is due some time after the first
event that ends a burst. -/
theorem instant?_latestOnce_eq_some_iff
    (hrows : ∀ row ∈ store.ledger.eventsNamed event, row.stamp.inRange) :
    (afterEvent event seconds .latestOnce).instant? store planned = some due ↔
      ∃ times t, store.eventTimes event = .ok times ∧ latestOnce? seconds times = some t ∧
        t.addSeconds? seconds = some due := by
  rw [instant?, Occurrence.time?_latestOnce seconds hrows]
  cases store.eventTimes event with
  | error => simp [Except.map]
  | ok times => cases hlatest : latestOnce? seconds times <;> simp [Except.map, hlatest]

/-- A notification that was due stays due at the same time, whichever events are recorded
afterwards. -/
theorem instant?_recordEvent {e : Event} {now : Instant}
    (hrows : ∀ row ∈ store.ledger.eventsNamed event, row.stamp.inRange ∧ row.stamp ≤ now)
    (hnow : now.inRange)
    (hdue : (afterEvent event seconds .latestOnce).instant? store planned = some due)
    (hlate : due < now) :
    (afterEvent event seconds .latestOnce).instant? (store.recordEvent e now).2 planned =
      some due := by
  have hrange (row : EventRow) (hrow : row ∈ store.ledger.eventsNamed event) :
      row.stamp.inRange := (hrows row hrow).1
  by_cases hstarted : store.isStarted
  case neg => rwa [Store.recordEvent_of_not_isStarted hstarted]
  case pos =>
    obtain ⟨times, t, htimes, hlatest, hdelivery⟩ := (instant?_latestOnce_eq_some_iff hrange).1 hdue
    refine (instant?_latestOnce_eq_some_iff (Store.inRange_recordEvent hnow hrange)).2
      ⟨_, t, Store.eventTimes_recordEvent hstarted hrows hnow htimes, ?_, hdelivery⟩
    refine latestOnce?_append hlatest fun later hlater => ?_
    obtain rfl := List.mem_singleton.1 (List.mem_ite_nil_right.1 hlater).2
    exact ⟨due, hdelivery, hlate⟩

end DueTime

/-- A notification that counts from the latest event, but once, fires once for a burst of events.
It counts from the first event that is the last one or is followed by one after its delivery, and
from no event if there is none. Later events leave it alone if they come after its delivery.
Without a wait it counts from the first event, which the history is asked for in place of the full
list. -/
theorem latestOnce?_firesOncePerBurst (seconds : Int) {times : List Instant}
    (hascending : times.Pairwise (· ≤ ·)) (hrange : ∀ t ∈ times, t.inRange) :
    (times = [] → latestOnce? seconds times = none) ∧
      (times ≠ [] → ∃ i t, IsLeast {i | EndsBurst seconds times i} i ∧ times[i]? = some t ∧
        latestOnce? seconds times = some t ∧
        ∀ later, (∀ e ∈ later, MissesDelivery seconds t e) →
          latestOnce? seconds (times ++ later) = some t) ∧
      latestOnce? 0 times = times.head? ∧
      ∀ store event, (∀ row ∈ store.ledger.eventsNamed event, row.stamp.inRange) →
        Occurrence.latestOnce.time? store event seconds =
          (store.eventTimes event).map (latestOnce? seconds) := by
  refine ⟨?_, ?_, latestOnce?_zero hascending hrange,
    fun store event hrows => Occurrence.time?_latestOnce seconds hrows⟩
  · rintro rfl
    rfl
  · intro hne
    obtain ⟨first, rest, rfl⟩ := List.exists_cons_of_ne_nil hne
    obtain ⟨i, hleast, hi⟩ := exists_isLeast_endsBurst seconds first rest
    exact ⟨i, burstEnd seconds first rest, hleast, hi, rfl,
      fun later hlater => latestOnce?_append rfl hlater⟩

/-- Three taps, the last one after a break. With a wait of a minute the first two are a burst, and
a tap after its delivery does not count. -/
theorem second_tap_ends_burst :
    let taps : List Instant := [⟨0⟩, ⟨10000000⟩, ⟨100000000⟩]
    let store : Store :=
      ⟨0, ⟨taps.map fun t => ⟨⟨"tap", .custom⟩, t⟩, []⟩, .started⟩
    IsLeast {i | EndsBurst 60 taps i} 1 ∧ latestOnce? 60 taps = some ⟨10000000⟩ ∧
      latestOnce? 60 (taps ++ [⟨200000000⟩]) = some ⟨10000000⟩ ∧
      latestOnce? 0 taps = some ⟨0⟩ ∧
      Occurrence.latestOnce.time? store "tap" 60 = .ok (some ⟨10000000⟩) := by
  intro taps store
  have hlatest : latestOnce? 60 taps = some ⟨10000000⟩ := by decide +kernel
  have htimes : store.eventTimes "tap" = .ok taps := by
    rw [Store.eventTimes, Store.opened_of_isStarted rfl]
    have hsorted : store.ledger.eventTimes "tap" = taps := by
      rw [Ledger.eventTimes, List.mergeSort_of_pairwise (by decide +kernel)]
      decide +kernel
    exact congrArg Except.ok hsorted
  obtain ⟨-, hburst, hzero, hstore⟩ :=
    @latestOnce?_firesOncePerBurst 60 taps (by decide) (by decide)
  obtain ⟨i, t, hleast, hi, ht, hlater⟩ := hburst (List.cons_ne_nil _ _)
  obtain rfl : ⟨10000000⟩ = t := Option.some.inj (hlatest.symm.trans ht)
  obtain rfl : i = 1 := by
    obtain ⟨hlength, hget⟩ := List.getElem?_eq_some_iff.1 hi
    have hnodup : taps.Nodup := by decide
    exact (@List.Nodup.getElem_inj_iff _ taps hnodup i hlength 1 (by decide)).1 hget
  refine ⟨hleast, hlatest, hlater _ fun e he => ?_, hzero, ?_⟩
  · obtain rfl := List.mem_singleton.1 he
    exact ⟨⟨70000000⟩, by decide +kernel, by decide⟩
  · rw [hstore store "tap" (by decide), htimes]
    exact congrArg Except.ok hlatest

end Targeting
