/-
# What a plan schedules

A plan is complete: planning goes through the notifications in order, gives each of
them a delivery, and puts it among the scheduled notifications if the delivery has a
time and among the others if not. The plan is made again at the earliest of the times
that the deliveries ask for.

A plan schedules nothing that it must not. What is scheduled has not been cancelled,
its condition holds, and its time is neither early nor outside of the window.
-/

import Mathlib.Order.Lattice
import Targeting.Notification.Plan
import Targeting.Proofs.Notification.Checked

namespace Targeting

open Calendar (ClockTime Instant Zone)
open Condition (Environment)

variable {σ : Type} (store : Store) (env : Environment σ) (now : Instant) (zone : Zone)

/-! ## Completeness -/

namespace Plan

/-- The notifications, each with the state of the world in which planning gets to it. -/
def visits : List Notification → σ → List (Notification × σ)
  | [], _ => []
  | n :: rest, s => (n, s) :: visits rest (n.delivery store env now zone s).2

/-- The notifications with their deliveries. -/
def answers (notifications : List Notification) (s : σ) : List (Notification × Delivery) :=
  (visits store env now zone notifications s).map fun (n, s) =>
    (n, (n.delivery store env now zone s).1)

theorem answers_cons (n : Notification) (rest : List Notification) (s : σ) :
    answers store env now zone (n :: rest) s = (n, (n.delivery store env now zone s).1) ::
      answers store env now zone rest (n.delivery store env now zone s).2 := rfl

theorem make_cons (n : Notification) (rest : List Notification) (s : σ) :
    (make store env now zone (n :: rest) s).1 = add n (n.delivery store env now zone s).1
      (make store env now zone rest (n.delivery store env now zone s).2).1 := rfl

/-- Planning answers for every notification once, in order. -/
theorem map_fst_answers (notifications : List Notification) (s : σ) :
    (answers store env now zone notifications s).map Prod.fst = notifications := by
  induction notifications generalizing s with
  | nil => rfl
  | cons n rest ih => rw [answers_cons, List.map_cons, ih]

/-- The notifications whose delivery has a time are scheduled. -/
theorem scheduled_make (notifications : List Notification) (s : σ) :
    (make store env now zone notifications s).1.scheduled =
      (answers store env now zone notifications s).filterMap fun (n, delivery) =>
        delivery.time.map fun c => ⟨n, c.instant⟩ := by
  induction notifications generalizing s with
  | nil => rfl
  | cons n rest ih =>
      rw [make_cons, answers_cons, add]
      cases htime : (n.delivery store env now zone s).1.time <;> simp [htime, ih]

/-- The notifications whose delivery has no time are not. -/
theorem unscheduled_make (notifications : List Notification) (s : σ) :
    (make store env now zone notifications s).1.unscheduled =
      ((answers store env now zone notifications s).filter fun answer =>
        answer.2.time.isNone).map Prod.fst := by
  induction notifications generalizing s with
  | nil => rfl
  | cons n rest ih =>
      rw [make_cons, answers_cons, add]
      cases htime : (n.delivery store env now zone s).1.time <;> simp [htime, ih]

theorem micros_earlier (a b : Instant) : (a.earlier b).micros = min a.micros b.micros := by
  by_cases h : b < a
  · rw [Instant.earlier, if_pos h, min_eq_right (Int.le_of_lt h)]
  · rw [Instant.earlier, if_neg h, min_eq_left (Int.not_lt.1 h)]

/-- The check of a plan is the earliest of its deliveries. -/
theorem check_make (notifications : List Notification) (s : σ) :
    (make store env now zone notifications s).1.check.map Instant.micros =
      (((answers store env now zone notifications s).filterMap fun answer =>
        answer.2.check).map Instant.micros).min? := by
  induction notifications generalizing s with
  | nil => rfl
  | cons n rest ih =>
      have hcheck : (make store env now zone (n :: rest) s).1.check =
          earlierCheck (n.delivery store env now zone s).1.check
            (make store env now zone rest (n.delivery store env now zone s).2).1.check := by
        rw [make_cons, add]
        cases (n.delivery store env now zone s).1.time <;> rfl
      rw [hcheck, answers_cons]
      have hrest := ih (n.delivery store env now zone s).2
      cases hfirst : (n.delivery store env now zone s).1.check with
      | none =>
          simp only [List.filterMap_cons, hfirst]
          rw [← hrest]
          rfl
      | some a =>
          simp only [List.filterMap_cons, hfirst, List.map_cons, List.min?_cons]
          rw [← hrest]
          cases (make store env now zone rest (n.delivery store env now zone s).2).1.check with
          | none => rfl
          | some b => simp [earlierCheck, micros_earlier]

end Plan

/-! ## Legitimacy -/

/-- The instants at which a notification is due: a fixed time, or a number of seconds
after the event that is counted from. -/
inductive DueTime.FallsAt : DueTime → Instant → Prop
  | at (t : Instant) : FallsAt (.at t) t
  | afterEvent {event : String} {seconds : Int} {occurrence : Occurrence} {t due : Instant} :
      occurrence.time? store event seconds = .ok (some t) →
      due.micros = t.micros + seconds * 1000000 → FallsAt (.afterEvent event seconds occurrence) due

/-- A time at which a notification may be delivered, if planning gets to it in a given
state of the world. -/
structure Notification.Legitimate (s : σ) (n : Notification) (time : Instant) : Prop where
  /-- No event has cancelled the notification. -/
  notCancelled : ∀ row ∈ store.ledger.events, row.event.name ∉ n.cancelationEvents
  /-- Its condition holds, if it has one. -/
  holds : ∀ c ∈ n.scheduleCondition, (c.evaluate env s).1 = .ok true
  /-- It is counted from an occurrence that is known. -/
  known : ∀ event seconds name, n.due ≠ .afterEvent event seconds (.unknown name)
  /-- It is due. -/
  due : ∃ due, n.due.FallsAt store due ∧ due ≤ time
  /-- Delivery is allowed, as long as the calendar goes on. -/
  allowed : (time.plusDays 2).inRange → n.window.allowsAt zone time

namespace Notification

variable {store env now zone} {n : Notification}

/-- A notification is cancelled by an event that was recorded, and by any event as
long as history cannot be read. -/
theorem isCancelled_iff : n.isCancelled store ↔
    ∃ event ∈ n.cancelationEvents, store.isStarted → store.ledger.eventsNamed event ≠ [] := by
  rw [isCancelled, List.any_eq_true]
  refine exists_congr fun event => and_congr_right fun _ => ?_
  rw [Store.eventCountUpTo, Store.opened]
  by_cases hstarted : store.isStarted
  · simp [hstarted, Except.map, Ledger.eventCountUpTo, List.length_pos_iff]
  · simp [hstarted, Except.map]

theorem not_cancelled_of_isCancelled (h : n.isCancelled store = false) :
    ∀ row ∈ store.ledger.events, row.event.name ∉ n.cancelationEvents := by
  intro row hrow hmem
  have hrecorded : store.ledger.eventsNamed row.event.name ≠ [] :=
    List.ne_nil_of_mem (List.mem_filter.2 ⟨hrow, beq_self_eq_true _⟩)
  have hcancelled := isCancelled_iff.2 ⟨_, hmem, fun _ => hrecorded⟩
  simp [h] at hcancelled

/-- What is due has not been cancelled, and its condition holds. -/
theorem eq_of_dueTime? {s : σ} {due : Instant} (h : (n.dueTime? store env now s).1 = some due) :
    n.isCancelled store = false ∧ (∀ c ∈ n.scheduleCondition, (c.evaluate env s).1 = .ok true) ∧
      n.due.instant? store now = some due := by
  unfold dueTime? at h
  split at h
  case isTrue => cases h
  case isFalse hcancelled =>
      have hcancelled' : n.isCancelled store = false := by simpa using hcancelled
      cases hcondition : n.scheduleCondition with
      | none =>
          simp only [maySchedule, hcondition] at h
          exact ⟨hcancelled', by simp, h⟩
      | some c =>
          rcases hresult : c.evaluate env s with ⟨_ | _ | _, s'⟩ <;>
            simp only [maySchedule, hcondition, holds, hresult, reduceCtorEq] at h
          refine ⟨hcancelled', ?_, h⟩
          rintro _ ⟨⟩
          rw [hresult]

/-- The instant that a notification is due is the one it says, and in the calendar. -/
theorem fallsAt_of_instant? {due : DueTime} {t : Instant} (h : due.instant? store now = some t)
    (hfixed : ∀ t, due = .at t → t.inRange) :
    due.FallsAt store t ∧ t.inRange ∧
      ∀ event seconds name, due ≠ .afterEvent event seconds (.unknown name) := by
  cases due with
  | «at» fixed =>
      rw [DueTime.instant?] at h
      split at h
      · obtain rfl := Option.some.inj h
        exact ⟨.at _, hfixed _ rfl, by simp⟩
      · cases h
  | afterEvent event seconds occurrence =>
      rw [DueTime.instant?] at h
      split at h
      case h_1 e he =>
          obtain ⟨hmicros, hrange⟩ := Instant.micros_of_addSeconds? h
          refine ⟨.afterEvent he hmicros, hrange, ?_⟩
          rintro _ _ name ⟨⟩
          cases he
      · cases h
      · cases h

/-- A good moment is now, if delivery is allowed now. Otherwise the wait ends no
earlier than the notification is due. -/
theorem le_of_awaitMoment {due t : Instant} (hdue : due.inRange)
    (hwaits : ∀ ideal ∈ n.ideal, ∀ seconds ∈ ideal.maxWait, 1 ≤ seconds) {s : σ}
    (h : (n.awaitMoment env due now zone s).1.1 = some t) :
    due ≤ t ∧ (t.inRange ∨ n.window.allowsAt zone t) := by
  cases hideal : n.ideal with
  | none =>
      simp only [awaitMoment, hideal, Option.some.injEq] at h
      exact h ▸ ⟨Instant.le_refl due, .inl hdue⟩
  | some ideal =>
      have hlatest : (ideal.maxWait.bind due.addSeconds?) = some t → due ≤ t ∧ t.inRange := by
        intro hlatest
        obtain ⟨seconds, hseconds, hadd⟩ := Option.bind_eq_some_iff.1 hlatest
        obtain ⟨hmicros, hrange⟩ := Instant.micros_of_addSeconds? hadd
        have hone := hwaits ideal hideal seconds hseconds
        exact ⟨by rw [Instant.le_def]; omega, hrange⟩
      by_cases hwaiting : n.isWaiting ideal due now zone
      · rcases hgood : holds env ideal.condition s with ⟨_ | _, s'⟩
        · simp only [awaitMoment, hideal, hwaiting, if_true, hgood, Bool.false_eq_true,
            if_false] at h
          exact (hlatest h).imp_right .inl
        · simp only [awaitMoment, hideal, hwaiting, if_true, hgood, Option.some.injEq] at h
          simp only [isWaiting, Bool.and_eq_true, decide_eq_true_eq] at hwaiting
          obtain ⟨⟨hdue, -⟩, hallowed⟩ := hwaiting
          exact h ▸ ⟨hdue, .inr hallowed⟩
      · simp only [awaitMoment, hideal, hwaiting, Bool.false_eq_true, if_false] at h
        exact (hlatest h).imp_right .inl

/-- A delivery that has a time went through all steps. -/
theorem exists_due_of_delivery {s : σ} {c : ClockTime}
    (h : (n.delivery store env now zone s).1.time = some c) :
    ∃ due s' t, n.dueTime? store env now s = (some due, s') ∧
      (n.awaitMoment env due now zone s').1.1 = some t ∧ n.window.shift zone t = c := by
  rcases hdue? : n.dueTime? store env now s with ⟨_ | due, s'⟩
  · simp [delivery, hdue?, Delivery.never] at h
  · simp only [delivery, hdue?] at h
    obtain ⟨t, ht, hshift⟩ := Option.map_eq_some_iff.1 h
    exact ⟨due, s', t, rfl, ht, hshift⟩

/-- Planning schedules notifications at legitimate times only. -/
theorem delivery_legitimate (hsound : n.Sound) (hzone : zone.IsConstant) {s : σ} {c : ClockTime}
    (h : (n.delivery store env now zone s).1.time = some c) :
    n.Legitimate store env zone s c.instant := by
  obtain ⟨offset, hzone⟩ := hzone.exists_offset
  obtain ⟨due, s', t, hdue?, ht, rfl⟩ := exists_due_of_delivery h
  obtain ⟨hcancelled, hholds, hinstant⟩ := eq_of_dueTime? (congrArg Prod.fst hdue?)
  obtain ⟨hfalls, hrange, hknown⟩ := fallsAt_of_instant? hinstant hsound.inCalendar
  obtain ⟨hle, hinside⟩ := le_of_awaitMoment hrange hsound.waits ht
  have hshift : t ≤ (n.window.shift zone t).instant ∧
      (((n.window.shift zone t).instant.plusDays 2).inRange →
        n.window.allowsAt zone (n.window.shift zone t).instant) := by
    rcases hinside with hrange | hallowed
    · exact DeliveryWindow.shift_spec hzone hsound.opens hrange
    · rw [DeliveryWindow.shift_of_allowsAt hallowed]
      exact ⟨Instant.le_refl t, fun _ => hallowed⟩
  exact {
    notCancelled := not_cancelled_of_isCancelled hcancelled
    holds := hholds
    known := hknown
    due := ⟨due, hfalls, Instant.le_trans hle hshift.1⟩
    allowed := hshift.2 }

end Notification

namespace Plan

variable {store env now zone}

/-- What is scheduled is the answer to a visit. -/
theorem exists_visit_of_mem_scheduled {notifications : List Notification} {s : σ}
    {entry : ScheduledNotification}
    (h : entry ∈ (make store env now zone notifications s).1.scheduled) :
    ∃ s' c, (entry.notification, s') ∈ visits store env now zone notifications s ∧
      (entry.notification.delivery store env now zone s').1.time = some c ∧
      entry.time = c.instant := by
  rw [scheduled_make] at h
  obtain ⟨answer, hanswer, htime⟩ := List.mem_filterMap.1 h
  obtain ⟨⟨n, s'⟩, hvisit, rfl⟩ := List.mem_map.1 hanswer
  obtain ⟨c, hc, rfl⟩ := Option.map_eq_some_iff.1 htime
  exact ⟨s', c, hvisit, hc, rfl⟩

theorem mem_of_mem_visits {notifications : List Notification} {s s' : σ} {n : Notification}
    (h : (n, s') ∈ visits store env now zone notifications s) : n ∈ notifications := by
  have hfst := map_fst_answers store env now zone notifications s
  rw [answers, List.map_map] at hfst
  rw [← hfst]
  exact List.mem_map.2 ⟨_, h, rfl⟩

/-- A plan puts every notification once, in order, among the scheduled ones or among
the others, and is made again at the earliest of the times that the deliveries ask
for. What it schedules is legitimate in the state of the world in which planning gets
to it. -/
theorem make_complete_and_legitimate (hzone : zone.IsConstant) {notifications : List Notification}
    (hchecked : ∀ n ∈ notifications, n.IsChecked) (s : σ) :
    let plan := (make store env now zone notifications s).1
    let answers := answers store env now zone notifications s
    answers.map Prod.fst = notifications ∧
      (plan.scheduled = answers.filterMap fun (n, delivery) =>
        delivery.time.map fun c => ⟨n, c.instant⟩) ∧
      plan.unscheduled = (answers.filter fun answer => answer.2.time.isNone).map Prod.fst ∧
      plan.check.map Instant.micros =
        ((answers.filterMap fun answer => answer.2.check).map Instant.micros).min? ∧
      ∀ entry ∈ plan.scheduled, ∃ s',
        (entry.notification, s') ∈ visits store env now zone notifications s ∧
          entry.notification.Legitimate store env zone s' entry.time := by
  intro plan answers
  refine ⟨map_fst_answers store env now zone notifications s,
    scheduled_make store env now zone notifications s,
    unscheduled_make store env now zone notifications s,
    check_make store env now zone notifications s, fun entry hentry => ?_⟩
  obtain ⟨s', c, hvisit, htime, heq⟩ := exists_visit_of_mem_scheduled hentry
  have hsound := (hchecked _ (mem_of_mem_visits hvisit)).sound
  exact ⟨s', hvisit, heq ▸ Notification.delivery_legitimate hsound hzone htime⟩

/-- A welcome that is due on a Tuesday evening is scheduled for the next Monday at
nine, unless signing up cancels it. -/
theorem welcome_on_monday :
    let welcome : NotificationDraft :=
      { title := some "Welcome", body := none, badgeCount := none, tapAction := none
        sound := none, launchImage := none, relevance := none, interruption := none
        scheduleCondition := some "1 < 2", due := ⟨none, some "signup", some 100, some "latest"⟩
        days := some "Monday", dayStart := some "09:00", dayEnd := some "17:00", ideal := none
        cancelationEvents := some ["purchase"] }
    let n : Notification :=
      { id := "welcome", title := some "Welcome", body := none, badgeCount := none
        tapAction := none, sound := none, launchImage := none, relevance := none
        interruption := none, scheduleCondition := some ⟨"1 < 2", none, some (.ok ⟨.bool true⟩)⟩
        due := .afterEvent "signup" 100 .latest, window := ⟨[.monday], 540, 1020⟩
        ideal := none, cancelationEvents := ["purchase"] }
    let m : Notification := { n with cancelationEvents := ["signup"] }
    let store : Store := ⟨0, ⟨[⟨⟨"signup", .custom⟩, ⟨1700000000000000⟩⟩], []⟩, .started⟩
    let plan := (make store Environment.empty ⟨1700000000000000⟩ (.fixed 3600) [n, m] ()).1
    Notification.ofDraft ⟨.strict, []⟩ "welcome" welcome = .ok n ∧
      Notification.ofDraft ⟨.strict, []⟩ "welcome"
        { welcome with cancelationEvents := some ["signup"] } = .ok m ∧
      plan.scheduled = [⟨n, ⟨1700467200000000⟩⟩] ∧ plan.unscheduled = [m] ∧
      n.Legitimate store Environment.empty (.fixed 3600) () ⟨1700467200000000⟩ ∧
      n.window.allowsAt (.fixed 3600) ⟨1700467200000000⟩ := by
  intro welcome n m store plan
  have hn : Notification.ofDraft ⟨.strict, []⟩ "welcome" welcome = .ok n := rfl
  have hm : Notification.ofDraft ⟨.strict, []⟩ "welcome"
      { welcome with cancelationEvents := some ["signup"] } = .ok m := rfl
  have hchecked : ∀ k ∈ [n, m], k.IsChecked := by
    intro k hk
    simp only [List.mem_cons, List.not_mem_nil, or_false] at hk
    rcases hk with rfl | rfl
    · exact ⟨_, _, _, hn⟩
    · exact ⟨_, _, _, hm⟩
  have hzone : (Zone.fixed 3600).IsConstant := ⟨by decide, by decide⟩
  have hscheduled : plan.scheduled = [⟨n, ⟨1700467200000000⟩⟩] := by
    simp only [plan, m, n, store]
    rfl
  obtain ⟨-, -, -, -, hlegitimate⟩ :=
    @make_complete_and_legitimate _ store Environment.empty ⟨1700000000000000⟩ (.fixed 3600)
      hzone _ hchecked ()
  obtain ⟨_, -, hentry⟩ := hlegitimate _ (hscheduled ▸ List.mem_singleton.2 rfl)
  exact ⟨hn, hm, hscheduled, rfl, hentry, hentry.allowed rfl⟩

end Plan

end Targeting
