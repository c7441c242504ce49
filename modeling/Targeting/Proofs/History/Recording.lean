/-
# Recording an event

An event that is recorded changes the answers about its own name only. It leaves the
first event of a name as it is, unless it is the first itself, if the clock has not
been set back.
-/

import Mathlib.Data.List.Basic
import Targeting.History.Store

namespace Targeting

open Calendar (Instant)

namespace Ledger

/-- A row that comes last by stamp does not change which one comes first. -/
theorem earliestBy?_append_of_le {α : Type} {stamp : α → Instant} {rows : List α} {new : α}
    (hne : rows ≠ []) (hle : ∀ row ∈ rows, stamp row ≤ stamp new) :
    earliestBy? stamp (rows ++ [new]) = earliestBy? stamp rows := by
  induction rows with
  | nil => exact absurd rfl hne
  | cons row rest ih =>
      obtain ⟨hrow, hrest⟩ := List.forall_mem_cons.1 hle
      by_cases hnil : rest = []
      · subst hnil
        have hnot : ¬ stamp new < stamp row := Int.not_lt.2 hrow
        simp [earliestBy?, hnot]
      · rw [List.cons_append, earliestBy?, ih hnil hrest, ← earliestBy?]

theorem eventsNamed_addEvent (l : Ledger) (event : Event) (now : Instant) (name : String) :
    (l.addEvent event now).eventsNamed name =
      l.eventsNamed name ++ if event.name = name then [⟨event, now⟩] else [] := by
  simp only [eventsNamed, addEvent, List.filter_append, List.filter_cons, List.filter_nil,
    beq_iff_eq]

/-- Rows of other names stay as they are. -/
theorem eventsNamed_addEvent_of_ne {l : Ledger} {event : Event} {now : Instant} {name : String}
    (h : event.name ≠ name) : (l.addEvent event now).eventsNamed name = l.eventsNamed name := by
  rw [eventsNamed_addEvent, if_neg h, List.append_nil]

end Ledger

namespace Store

variable {store : Store} {event : Event} {now : Instant}

theorem opened_of_isStarted (h : store.isStarted) : store.opened = .ok store.ledger := if_pos h

/-- After the start the ledger grows by the event. -/
theorem recordEvent_of_isStarted (h : store.isStarted) :
    (store.recordEvent event now).2 = { store with ledger := store.ledger.addEvent event now } := by
  rw [recordEvent, opened_of_isStarted h]

theorem opened_recordEvent (h : store.isStarted) :
    (store.recordEvent event now).2.opened = .ok (store.ledger.addEvent event now) := by
  rw [recordEvent_of_isStarted h]
  exact if_pos h

/-- Nothing is recorded before the start. -/
theorem recordEvent_of_not_isStarted (h : ¬ store.isStarted) :
    (store.recordEvent event now).2 = store := by
  rw [recordEvent, opened, if_neg h]

/-- A first event stays the first one, unless the clock has been set back. -/
theorem firstEvent_recordEvent (hclock : ∀ row ∈ store.ledger.events, row.stamp ≤ now)
    {name : String} {t : Instant} (hfirst : store.firstEvent name = .ok (some t)) :
    (store.recordEvent event now).2.firstEvent name = .ok (some t) := by
  by_cases hstarted : store.isStarted
  · rw [firstEvent, opened_of_isStarted hstarted] at hfirst
    have hearliest : store.ledger.firstEvent? name = some t := Except.ok.inj hfirst
    have hne : store.ledger.eventsNamed name ≠ [] := by
      intro hnil
      simp [Ledger.firstEvent?, hnil, Ledger.earliestBy?] at hearliest
    have hle : ∀ row ∈ store.ledger.eventsNamed name, row.stamp ≤ now :=
      fun row hrow => hclock row (List.mem_of_mem_filter hrow)
    have hsame : (store.ledger.addEvent event now).firstEvent? name = some t := by
      rw [← hearliest, Ledger.firstEvent?, Ledger.eventsNamed_addEvent, Ledger.firstEvent?]
      split
      · rw [Ledger.earliestBy?_append_of_le hne hle]
      · rw [List.append_nil]
    rw [firstEvent, opened_recordEvent hstarted, ← hsame]
    rfl
  · rw [recordEvent_of_not_isStarted hstarted, hfirst]

end Store

end Targeting
