/-
# Planning again after an event

A plan says whether an event can change it. If it says no and the plan is made again
after the event, the same notifications are scheduled for the same times. Only the
next look for a good moment may change: a notification that waits for a good moment
without end is not scheduled, so the plan does not mention the events that cancel it,
and yet its next look goes away with it.

The world has to answer the same before and after the event, the clock must not have
been set back, and identifiers have to identify.
-/

import Targeting.Proofs.Condition.Observation
import Targeting.Proofs.History.Recording
import Targeting.Proofs.Notification.Scheduled

namespace Targeting

open Calendar (ClockTime Instant Zone)
open Condition (Environment)
open Condition.Run (Alike)

variable {σ : Type}

/-! ## Worlds that answer the same -/

/-- In all of a set of states, which questions do not leave, the world gives the same
answers. -/
def Condition.Environment.Steady (env : Environment σ) (states : σ → Prop) : Prop :=
  ∀ fields, env.AgreesOn fields (fun s t => states s ∧ states t) env

/-- Questions that are answered alike get one answer. -/
theorem Condition.Run.Alike.exists_answer {τ α : Type} {related : σ → τ → Prop}
    {ask : σ → α × σ} {ask' : τ → α × τ} (h : Alike related ask ask') {s : σ} {t : τ}
    (hst : related s t) : ∃ a s' t', ask s = (a, s') ∧ ask' t = (a, t') ∧ related s' t' := by
  obtain ⟨hanswer, hstate⟩ := h s t hst
  exact ⟨(ask s).1, (ask s).2, (ask' t).2, rfl, Prod.ext hanswer.symm rfl, hstate⟩

section Steady

variable {env : Environment σ} {states : σ → Prop} (henv : env.Steady states)

include henv

/-- The truth of a condition does not depend on the state. -/
theorem Condition.evaluate_alike (c : Condition) :
    Alike (fun s t => states s ∧ states t) (c.evaluate env) (c.evaluate env) := by
  intro s t hst
  unfold Condition.evaluate
  split
  · exact ⟨rfl, hst⟩
  · split
    case h_1 program _ =>
        obtain ⟨hresult, hstate⟩ :=
          Condition.Expr.evaluate_simulates (henv (.of program.root)) s t hst
        rw [program.evaluate_eq_verdict, program.evaluate_eq_verdict]
        exact ⟨congrArg Program.verdict hresult, hstate⟩
    case h_2 => exact ⟨rfl, hst⟩

namespace Notification

theorem holds_alike (c : Condition) :
    Alike (fun s t => states s ∧ states t) (holds env c) (holds env c) := by
  intro s t hst
  obtain ⟨result, s', t', hs, ht, hst'⟩ := (Condition.evaluate_alike henv c).exists_answer hst
  simp only [holds, hs, ht]
  cases result <;> exact ⟨rfl, hst'⟩

variable (n : Notification) (store : Store) (now : Instant) (zone : Zone)

theorem dueTime?_alike :
    Alike (fun s t => states s ∧ states t) (n.dueTime? store env now)
      (n.dueTime? store env now) := by
  intro s t hst
  have hschedule : Alike (fun s t => states s ∧ states t) (n.maySchedule env)
      (n.maySchedule env) := by
    intro s t hst
    rw [maySchedule, maySchedule]
    split
    · exact ⟨rfl, hst⟩
    · exact holds_alike henv _ s t hst
  obtain ⟨result, s', t', hs, ht, hst'⟩ := hschedule.exists_answer hst
  simp only [dueTime?, hs, ht]
  split
  · exact ⟨rfl, hst⟩
  · cases result <;> exact ⟨rfl, hst'⟩

theorem awaitMoment_alike (due : Instant) :
    Alike (fun s t => states s ∧ states t) (n.awaitMoment env due now zone)
      (n.awaitMoment env due now zone) := by
  intro s t hst
  cases hideal : n.ideal with
  | none =>
      simp only [awaitMoment, hideal]
      exact ⟨trivial, hst⟩
  | some ideal =>
      simp only [awaitMoment, hideal]
      by_cases hwaiting : n.isWaiting ideal due now zone
      · obtain ⟨result, s', t', hs, ht, hst'⟩ :=
          (holds_alike henv ideal.condition).exists_answer hst
        simp only [hwaiting, if_true, hs, ht]
        cases result <;> exact ⟨rfl, hst'⟩
      · simp only [hwaiting]
        exact ⟨rfl, hst⟩

/-- The delivery of a notification does not depend on the state. -/
theorem delivery_alike :
    Alike (fun s t => states s ∧ states t) (n.delivery store env now zone)
      (n.delivery store env now zone) := by
  intro s t hst
  obtain ⟨due?, s', t', hs, ht, hst'⟩ := (dueTime?_alike henv n store now).exists_answer hst
  simp only [delivery, hs, ht]
  cases due? with
  | none => exact ⟨rfl, hst'⟩
  | some due =>
      obtain ⟨answer, s'', t'', hs', ht', hst''⟩ :=
        (awaitMoment_alike henv n now zone due).exists_answer hst'
      simp only [hs', ht']
      exact ⟨trivial, hst''⟩

end Notification

/-- In a steady world the notifications do not interfere: each has the delivery that it
has on its own. -/
theorem Plan.answers_eq_map (store : Store) (now : Instant) (zone : Zone) {s t : σ}
    (hs : states s) (ht : states t) (notifications : List Notification) :
    Plan.answers store env now zone notifications t =
      notifications.map fun n => (n, (n.delivery store env now zone s).1) := by
  induction notifications generalizing t with
  | nil => rfl
  | cons n rest ih =>
      obtain ⟨hsame, -, ht'⟩ := n.delivery_alike henv store now zone s t ⟨hs, ht⟩
      rw [answers_cons, List.map_cons, ih ht', hsame]

end Steady

/-! ## What an event changes -/

namespace Notification

variable {store : Store} {event : Event} {stamp : Instant} {n : Notification}

/-- An event cancels the notifications that name it, and no others. -/
theorem isCancelled_recordEvent :
    n.isCancelled (store.recordEvent event stamp).2 ↔
      n.isCancelled store ∨ event.name ∈ n.cancelationEvents := by
  rw [isCancelled_iff, isCancelled_iff]
  by_cases hstarted : store.isStarted
  · have hstarted' : (store.recordEvent event stamp).2.isStarted := by
      rw [Store.recordEvent_of_isStarted hstarted]
      exact hstarted
    have hledger : (store.recordEvent event stamp).2.ledger =
        store.ledger.addEvent event stamp := by
      rw [Store.recordEvent_of_isStarted hstarted]
    simp only [hstarted, hstarted', hledger, forall_const, Ledger.eventsNamed_addEvent]
    constructor
    · rintro ⟨name, hmem, hne⟩
      by_cases hname : event.name = name
      · exact .inr (hname ▸ hmem)
      · exact .inl ⟨name, hmem, by simpa [hname] using hne⟩
    · rintro (⟨name, hmem, hne⟩ | hmem)
      · exact ⟨name, hmem, by simp [hne]⟩
      · exact ⟨_, hmem, by simp⟩
  · rw [Store.recordEvent_of_not_isStarted hstarted]
    refine ⟨.inl, ?_⟩
    rintro (h | hmem)
    · exact h
    · exact ⟨_, hmem, fun h => absurd h hstarted⟩

/-- Nothing that is counted from an event follows from events of other names. -/
theorem time?_recordEvent_of_ne {name : String} (hne : event.name ≠ name) (seconds : Int)
    (occurrence : Occurrence) :
    occurrence.time? (store.recordEvent event stamp).2 name seconds =
      occurrence.time? store name seconds := by
  by_cases hstarted : store.isStarted
  · have hopened : (store.recordEvent event stamp).2.opened =
        .ok (store.ledger.addEvent event stamp) := Store.opened_recordEvent hstarted
    have hnamed : (store.ledger.addEvent event stamp).eventsNamed name =
        store.ledger.eventsNamed name := Ledger.eventsNamed_addEvent_of_ne hne
    cases occurrence <;>
      simp only [Occurrence.time?, Store.latestEvent, Store.firstEvent, Store.eventTimes, hopened,
        Store.opened_of_isStarted hstarted, Except.map, Ledger.latestEvent?, Ledger.firstEvent?,
        Ledger.eventTimes, hnamed]
  · rw [Store.recordEvent_of_not_isStarted hstarted]

/-- What an event leaves as it is: a time that is not counted from it, and a time that
is counted from its first occurrence once there is one. -/
theorem instant?_recordEvent (hclock : ∀ row ∈ store.ledger.events, row.stamp ≤ stamp)
    {now : Instant} {due : DueTime}
    (hcounted : ∀ seconds occurrence, due = .afterEvent event.name seconds occurrence →
      (∃ name, occurrence = .unknown name) ∨
        occurrence = .first ∧ ∃ t, store.firstEvent event.name = .ok (some t)) :
    due.instant? (store.recordEvent event stamp).2 now = due.instant? store now := by
  cases due with
  | «at» t => rfl
  | afterEvent name seconds occurrence =>
      rw [DueTime.instant?, DueTime.instant?]
      by_cases hname : event.name = name
      · subst hname
        rcases hcounted seconds occurrence rfl with ⟨_, rfl⟩ | ⟨rfl, t, hfirst⟩
        · rfl
        · simp only [Occurrence.time?, hfirst, Store.firstEvent_recordEvent hclock hfirst]
      · rw [time?_recordEvent_of_ne hname]

/-- A delivery follows from whether the notification is cancelled and when it is due. -/
theorem delivery_congr {store' : Store} {env : Environment σ} {now : Instant} {zone : Zone}
    (hcancelled : n.isCancelled store' = n.isCancelled store)
    (hdue : n.due.instant? store' now = n.due.instant? store now) (s : σ) :
    n.delivery store' env now zone s = n.delivery store env now zone s := by
  simp only [delivery, dueTime?, hcancelled, hdue]

theorem delivery_of_isCancelled {env : Environment σ} {now : Instant} {zone : Zone}
    (h : n.isCancelled store) (s : σ) : n.delivery store env now zone s = (.never, s) := by
  simp only [delivery, dueTime?, h, if_true]

end Notification

/-! ## Planning again -/

namespace Plan

theorem ext_of_micros {plan plan' : Plan} (hscheduled : plan.scheduled = plan'.scheduled)
    (hunscheduled : plan.unscheduled = plan'.unscheduled)
    (hcheck : plan.check.map Instant.micros = plan'.check.map Instant.micros) : plan = plan' := by
  have hinjective : Function.Injective Instant.micros := fun ⟨_⟩ ⟨_⟩ h => congrArg _ h
  have hcheck' := Option.map_injective hinjective hcheck
  cases plan
  cases plan'
  simp only [mk.injEq]
  exact ⟨hscheduled, hunscheduled, hcheck'⟩

section Steady

variable {env : Environment σ} {states : σ → Prop} (henv : env.Steady states)
variable {store : Store} {now : Instant} {zone : Zone} {notifications : List Notification}
variable {s t : σ} (hs : states s) (ht : states t)

include henv hs ht

/-! In a steady world the parts of a plan are lists of deliveries. -/

theorem scheduled_eq :
    (make store env now zone notifications t).1.scheduled = notifications.filterMap fun n =>
      (n.delivery store env now zone s).1.time.map fun c => ⟨n, c.instant⟩ := by
  rw [scheduled_make, answers_eq_map henv store now zone hs ht, List.filterMap_map]
  rfl

theorem unscheduled_eq :
    (make store env now zone notifications t).1.unscheduled =
      notifications.filter fun n => (n.delivery store env now zone s).1.time.isNone := by
  rw [unscheduled_make, answers_eq_map henv store now zone hs ht, List.filter_map, List.map_map]
  exact List.map_id _

theorem check_eq :
    (make store env now zone notifications t).1.check.map Instant.micros =
      ((notifications.filterMap fun n =>
        (n.delivery store env now zone s).1.check).map Instant.micros).min? := by
  rw [check_make, answers_eq_map henv store now zone hs ht, List.filterMap_map]
  rfl

theorem mem_scheduled_iff (entry : ScheduledNotification) :
    entry ∈ (make store env now zone notifications t).1.scheduled ↔
      entry.notification ∈ notifications ∧
        (entry.notification.delivery store env now zone s).1.time.map ClockTime.instant =
          some entry.time := by
  rw [scheduled_eq henv hs ht, List.mem_filterMap]
  constructor
  · rintro ⟨n, hn, hentry⟩
    obtain ⟨c, hc, rfl⟩ := Option.map_eq_some_iff.1 hentry
    exact ⟨hn, congrArg (Option.map ClockTime.instant) hc⟩
  · rintro ⟨hn, htime⟩
    obtain ⟨c, hc, hinstant⟩ := Option.map_eq_some_iff.1 htime
    refine ⟨entry.notification, hn, Option.map_eq_some_iff.2 ⟨c, hc, ?_⟩⟩
    rw [hinstant]

/-- If an event is not said to change a plan, what it cancels was not scheduled. -/
theorem time_eq_none_of_needsUpdate {event : String}
    (hneeds : (make store env now zone notifications t).1.needsUpdate event notifications = false)
    {n : Notification} (hn : n ∈ notifications) (hcancels : event ∈ n.cancelationEvents) :
    (n.delivery store env now zone s).1.time = none := by
  cases htime : (n.delivery store env now zone s).1.time with
  | none => rfl
  | some c =>
      have hentry := (mem_scheduled_iff henv hs ht ⟨n, c.instant⟩).2
        ⟨hn, congrArg (Option.map ClockTime.instant) htime⟩
      rw [needsUpdate, Bool.or_eq_false_iff] at hneeds
      have hnot := List.any_eq_false.1 hneeds.1 _ hentry
      simp [hcancels] at hnot

/-- If an event is not said to change a plan, nothing is counted from it but from its
first occurrence, which there is. -/
theorem counted_of_needsUpdate {event : String}
    (hids : ∀ n ∈ notifications, ∀ m ∈ notifications, n.id = m.id → n = m)
    (hneeds : (make store env now zone notifications t).1.needsUpdate event notifications = false)
    {n : Notification} (hn : n ∈ notifications) {seconds : Int} {occurrence : Occurrence}
    (hdue : n.due = .afterEvent event seconds occurrence) :
    (∃ name, occurrence = .unknown name) ∨
      occurrence = .first ∧ ∃ t, store.firstEvent event = .ok (some t) := by
  rw [needsUpdate, Bool.or_eq_false_iff] at hneeds
  have hnot := List.any_eq_false.1 hneeds.2 _ hn
  rw [isDelayedBy, hdue] at hnot
  cases occurrence with
  | latest => simp at hnot
  | latestOnce => simp at hnot
  | unknown name => exact .inl ⟨name, rfl⟩
  | first =>
      have hscheduled : (make store env now zone notifications t).1.schedules n.id := by
        simpa using hnot
      obtain ⟨entry, hentry, hid⟩ := List.any_eq_true.1 hscheduled
      obtain ⟨hmem, htime⟩ := (mem_scheduled_iff henv hs ht entry).1 hentry
      rw [hids _ hmem _ hn (beq_iff_eq.1 hid)] at htime
      obtain ⟨c, hc, -⟩ := Option.map_eq_some_iff.1 htime
      obtain ⟨due, s', -, hdue?, -⟩ := Notification.exists_due_of_delivery hc
      obtain ⟨-, -, hinstant⟩ := Notification.eq_of_dueTime? (congrArg Prod.fst hdue?)
      rw [hdue, DueTime.instant?, Occurrence.time?] at hinstant
      refine .inr ⟨rfl, ?_⟩
      split at hinstant
      case h_1 t' hfirst => exact ⟨t', hfirst⟩
      all_goals cases hinstant

/-- If an event is not said to change a plan, it changes the deliveries that it
cancels, and no others. -/
theorem delivery_of_needsUpdate {event : Event} {stamp : Instant}
    (hids : ∀ n ∈ notifications, ∀ m ∈ notifications, n.id = m.id → n = m)
    (hclock : ∀ row ∈ store.ledger.events, row.stamp ≤ stamp)
    (hneeds : (make store env now zone notifications t).1.needsUpdate event.name notifications =
      false) {n : Notification} (hn : n ∈ notifications) :
    (n.delivery (store.recordEvent event stamp).2 env now zone s).1 =
      if event.name ∈ n.cancelationEvents then .never
      else (n.delivery store env now zone s).1 := by
  by_cases hcancels : event.name ∈ n.cancelationEvents
  · rw [if_pos hcancels, Notification.delivery_of_isCancelled
      (Notification.isCancelled_recordEvent.2 (.inr hcancels))]
  · rw [if_neg hcancels]
    have hcancelled : n.isCancelled (store.recordEvent event stamp).2 = n.isCancelled store := by
      rw [Bool.eq_iff_iff, Notification.isCancelled_recordEvent]
      exact ⟨fun h => h.resolve_right hcancels, .inl⟩
    have hdue : n.due.instant? (store.recordEvent event stamp).2 now = n.due.instant? store now :=
      Notification.instant?_recordEvent hclock fun _ _ =>
        counted_of_needsUpdate henv hs ht hids hneeds hn
    rw [Notification.delivery_congr hcancelled hdue]

/-- If an event is not said to change a plan, it changes no time: what it cancels had
none. -/
theorem time_of_needsUpdate {event : Event} {stamp : Instant}
    (hids : ∀ n ∈ notifications, ∀ m ∈ notifications, n.id = m.id → n = m)
    (hclock : ∀ row ∈ store.ledger.events, row.stamp ≤ stamp)
    (hneeds : (make store env now zone notifications t).1.needsUpdate event.name notifications =
      false) {n : Notification} (hn : n ∈ notifications) :
    (n.delivery (store.recordEvent event stamp).2 env now zone s).1.time =
      (n.delivery store env now zone s).1.time := by
  rw [delivery_of_needsUpdate henv hs ht hids hclock hneeds hn]
  split
  case isTrue hcancels => exact (time_eq_none_of_needsUpdate henv hs ht hneeds hn hcancels).symm
  case isFalse => rfl

/-- If an event is not said to change a plan, the checks that are left are those of the
notifications that it does not cancel. -/
theorem checks_of_needsUpdate {event : Event} {stamp : Instant}
    (hids : ∀ n ∈ notifications, ∀ m ∈ notifications, n.id = m.id → n = m)
    (hclock : ∀ row ∈ store.ledger.events, row.stamp ≤ stamp)
    (hneeds : (make store env now zone notifications t).1.needsUpdate event.name notifications =
      false) :
    (notifications.filterMap fun n =>
        (n.delivery (store.recordEvent event stamp).2 env now zone s).1.check) =
      (notifications.filter fun n => event.name ∉ n.cancelationEvents).filterMap fun n =>
        (n.delivery store env now zone s).1.check := by
  rw [List.filterMap_filter]
  refine List.filterMap_congr fun n hn => ?_
  rw [delivery_of_needsUpdate henv hs ht hids hclock hneeds hn]
  by_cases hcancels : event.name ∈ n.cancelationEvents <;> simp [hcancels, Delivery.never]

/-- If an event is not said to change a plan, then after the event the same
notifications are scheduled for the same times and the same ones are not. The plan is
made again at the earliest of the times that the notifications ask for which the event
does not cancel. So it is the same plan, unless the event cancels a notification that
is not scheduled and waits for a good moment. -/
theorem make_recordEvent_of_not_needsUpdate {event : Event} {stamp : Instant}
    (hids : ∀ n ∈ notifications, ∀ m ∈ notifications, n.id = m.id → n = m)
    (hclock : ∀ row ∈ store.ledger.events, row.stamp ≤ stamp) :
    let plan := (make store env now zone notifications s).1
    let replan := (make (store.recordEvent event stamp).2 env now zone notifications t).1
    plan.needsUpdate event.name notifications = false →
      replan.scheduled = plan.scheduled ∧ replan.unscheduled = plan.unscheduled ∧
      replan.check.map Instant.micros =
        (((notifications.filter fun n => event.name ∉ n.cancelationEvents).filterMap fun n =>
          (n.delivery store env now zone s).1.check).map Instant.micros).min? ∧
      ((∀ n ∈ plan.unscheduled, event.name ∈ n.cancelationEvents →
        (n.delivery store env now zone s).1.check = none) → replan = plan) := by
  intro plan replan hneeds
  have htime : ∀ n ∈ notifications,
      (n.delivery (store.recordEvent event stamp).2 env now zone s).1.time =
        (n.delivery store env now zone s).1.time :=
    fun _ => time_of_needsUpdate henv hs hs hids hclock hneeds
  have hscheduled : replan.scheduled = plan.scheduled := by
    rw [scheduled_eq henv hs ht, scheduled_eq henv hs hs]
    exact List.filterMap_congr fun n hn => by rw [htime n hn]
  have hunscheduled : replan.unscheduled = plan.unscheduled := by
    rw [unscheduled_eq henv hs ht, unscheduled_eq henv hs hs]
    exact List.filter_congr fun n hn => by rw [htime n hn]
  have hcheck : replan.check.map Instant.micros =
      (((notifications.filter fun n => event.name ∉ n.cancelationEvents).filterMap fun n =>
        (n.delivery store env now zone s).1.check).map Instant.micros).min? := by
    rw [check_eq henv hs ht, checks_of_needsUpdate henv hs hs hids hclock hneeds]
  refine ⟨hscheduled, hunscheduled, hcheck, fun hwaits => ?_⟩
  have hkept : ((notifications.filter fun n => event.name ∉ n.cancelationEvents).filterMap fun n =>
      (n.delivery store env now zone s).1.check) =
        notifications.filterMap fun n => (n.delivery store env now zone s).1.check := by
    rw [List.filterMap_filter]
    refine List.filterMap_congr fun n hn => ?_
    by_cases hcancels : event.name ∈ n.cancelationEvents
    · have hnone := time_eq_none_of_needsUpdate henv hs hs hneeds hn hcancels
      have hmem : n ∈ plan.unscheduled := by
        rw [unscheduled_eq henv hs hs]
        exact List.mem_filter.2 ⟨hn, by simp [hnone]⟩
      simp [hcancels, hwaits n hmem hcancels]
    · simp [hcancels]
  refine ext_of_micros hscheduled hunscheduled ?_
  rw [hcheck, hkept, check_eq henv hs hs]

end Steady

/-- A purchase ends the wait for a good moment that never comes. The plan does not say
so, and without the notification there is nothing to look for. -/
theorem purchase_drops_check :
    let n : Notification :=
      { id := "n", title := some "t", body := none, badgeCount := none, tapAction := none
        sound := none, launchImage := none, relevance := none, interruption := none
        scheduleCondition := none, due := .afterEvent "signup" 0 .latestOnce
        window := ⟨Calendar.Weekday.all, 0, 1439⟩
        ideal := some ⟨⟨"false", none, some (.ok ⟨.bool false⟩)⟩, none⟩
        cancelationEvents := ["purchase"] }
    let store : Store := ⟨0, ⟨[⟨⟨"signup", .custom⟩, ⟨1700000000000000⟩⟩], []⟩, .started⟩
    let store' := (store.recordEvent ⟨"purchase", .custom⟩ ⟨1700000050000000⟩).2
    let plan := (make store Environment.empty ⟨1700000100000000⟩ .utc [n] ()).1
    let replan := (make store' Environment.empty ⟨1700000100000000⟩ .utc [n] ()).1
    plan.needsUpdate "purchase" [n] = false ∧ replan.scheduled = plan.scheduled ∧
      replan.unscheduled = plan.unscheduled ∧ plan.check = some ⟨1700001000000000⟩ ∧
      replan.check = none := by
  intro n store store' plan replan
  have henv : Environment.empty.Steady fun _ => True := fun _ =>
    { property := fun _ _ _ _ _ => ⟨rfl, True.intro, True.intro⟩
      function := fun _ _ _ _ _ _ => ⟨rfl, True.intro, True.intro⟩
      sessionRandom := fun _ _ _ => ⟨rfl, True.intro, True.intro⟩
      random := fun _ _ _ => ⟨rfl, True.intro, True.intro⟩
      now := fun _ _ _ => ⟨rfl, True.intro, True.intro⟩
      zone := rfl }
  have hids : ∀ k ∈ [n], ∀ m ∈ [n], k.id = m.id → k = m := by simp
  have hclock : ∀ row ∈ store.ledger.events, row.stamp ≤ ⟨1700000050000000⟩ := by
    simp [store, Instant.le_def]
  have hneeds : plan.needsUpdate "purchase" [n] = false := rfl
  obtain ⟨hscheduled, hunscheduled, -, -⟩ :=
    @make_recordEvent_of_not_needsUpdate _ _ _ henv store ⟨1700000100000000⟩ .utc [n] () ()
      True.intro True.intro ⟨"purchase", .custom⟩ ⟨1700000050000000⟩ hids hclock hneeds
  exact ⟨hneeds, hscheduled, hunscheduled, rfl, rfl⟩

end Plan

end Targeting
