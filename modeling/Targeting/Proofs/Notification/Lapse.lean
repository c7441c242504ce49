/-
# Due times that lapse

A plan is made again and again, and the clock goes on in between. A time that is
counted from an event stays due. A fixed time lapses: once it has passed, the
notification is not due any more, whether it has been delivered or not. Nothing else
about being due depends on the clock.

Two things follow. A notification that is pending keeps its delivery in every later
plan, unless its fixed time was moved into the window and lapses before the delivery.
A notification that waits for a good moment is delivered at the first one that a plan
finds, or at the end of the wait, unless its time is fixed: then there is no wait,
because it would begin with the time that lapses.
-/

import Targeting.Proofs.Notification.Scheduled

namespace Targeting

open Calendar (ClockTime Instant Zone)
open Condition (Environment)

variable {σ τ : Type} {store : Store} {now now' : Instant} {zone : Zone}

/-! ## Lapsing -/

namespace DueTime

/-- A fixed time has lapsed when it lies in the past. -/
def Lapsed (due : DueTime) (now : Instant) : Prop := ∃ t, due = .at t ∧ t < now

variable {due : DueTime} {t : Instant}

theorem Lapsed.mono (h : due.Lapsed now) (hle : now ≤ now') : due.Lapsed now' := by
  obtain ⟨t, rfl, hlt⟩ := h
  exact ⟨t, rfl, Int.lt_of_lt_of_le hlt hle⟩

theorem instant?_of_lapsed (h : due.Lapsed now) : due.instant? store now = none := by
  obtain ⟨t, rfl, hlt⟩ := h
  rw [instant?, if_neg (Instant.not_le.2 hlt)]

/-- As long as a due time does not lapse, it does not depend on the clock. -/
theorem instant?_eq_of_not_lapsed (h : ¬ due.Lapsed now) (h' : ¬ due.Lapsed now') :
    due.instant? store now' = due.instant? store now := by
  cases due with
  | «at» t =>
      have hle : now ≤ t := Instant.not_lt.1 fun hlt => h ⟨t, rfl, hlt⟩
      have hle' : now' ≤ t := Instant.not_lt.1 fun hlt => h' ⟨t, rfl, hlt⟩
      rw [instant?, instant?, if_pos hle, if_pos hle']
  | afterEvent event seconds occurrence => rfl

/-- The instant at which a notification falls due is its due time, until it lapses. -/
theorem instant?_of_fallsAt (hfalls : due.FallsAt store t) (hrange : t.inRange)
    (h : ¬ due.Lapsed now) : due.instant? store now = some t := by
  cases hfalls with
  | «at» => exact if_pos (Instant.not_lt.1 fun hlt => h ⟨t, rfl, hlt⟩)
  | @afterEvent event seconds occurrence e _ hevent hmicros =>
      have hadd : e.addSeconds? seconds = some t := by
        rw [Instant.addSeconds?, ← hmicros]
        exact if_pos hrange
      rw [instant?, hevent]
      exact hadd

end DueTime

namespace Notification

variable {n : Notification} {env : Environment σ} {env' : Environment τ} {s s' : σ} {s'' : τ}

/-- What is not cancelled and may be scheduled is due when its due time says. -/
theorem fst_dueTime? : (n.dueTime? store env now s).1 =
    if n.isCancelled store = false ∧ (n.maySchedule env s).1 then n.due.instant? store now
    else none := by
  rw [dueTime?]
  by_cases hcancelled : n.isCancelled store
  · simp [hcancelled]
  · rcases hmay : n.maySchedule env s with ⟨_ | _, s'⟩ <;> simp [hcancelled]

theorem delivery_of_dueTime?_eq_none (h : (n.dueTime? store env now s).1 = none) :
    (n.delivery store env now zone s).1 = .never := by
  rcases hdue : n.dueTime? store env now s with ⟨due?, s'⟩
  obtain rfl : due? = none := by rw [← h, hdue]
  rw [delivery, hdue]

/-! ## Pending notifications -/

/-- A notification that waits for no good moment is delivered when it is due, or as
soon as the window allows. -/
theorem delivery_of_ideal_eq_none (hideal : n.ideal = none) :
    (n.delivery store env now zone s).1 =
      ⟨(n.dueTime? store env now s).1.map (n.window.shift zone), none⟩ := by
  rcases hdue : n.dueTime? store env now s with ⟨_ | due, s'⟩
  · rw [delivery_of_dueTime?_eq_none (by rw [hdue])]
    rfl
  · simp only [delivery, hdue, awaitMoment, hideal, Option.map_some]

/-- A notification that is pending is planned again for the same time, if history and
its condition have not changed, and unless its fixed time has lapsed. If that has
lapsed, the notification is dropped before it was delivered; the window has moved its
delivery away from the fixed time. -/
theorem delivery_of_pending (hideal : n.ideal = none)
    (hcondition : (n.maySchedule env' s'').1 = (n.maySchedule env s).1) {c : ClockTime}
    (htime : (n.delivery store env now zone s).1.time = some c)
    (hlater : now ≤ now') (hpending : now' ≤ c.instant) :
    let again := (n.delivery store env' now' zone s'').1
    (¬ n.due.Lapsed now' → again = ⟨some c, none⟩) ∧
      (n.due.Lapsed now' → again = .never ∧
        ∃ t, n.due = .at t ∧ t < now' ∧ ¬ n.window.allowsAt zone t) := by
  intro again
  have hdelivery : (n.dueTime? store env now s).1.map (n.window.shift zone) = some c := by
    rw [delivery_of_ideal_eq_none hideal] at htime
    exact htime
  constructor
  · intro hdue
    have hbefore : ¬ n.due.Lapsed now := fun hlapsed => hdue (hlapsed.mono hlater)
    have hsame : (n.dueTime? store env' now' s'').1 = (n.dueTime? store env now s).1 := by
      rw [fst_dueTime?, fst_dueTime?, hcondition, DueTime.instant?_eq_of_not_lapsed hbefore hdue]
    simp only [again]
    rw [delivery_of_ideal_eq_none hideal, hsame, hdelivery]
  · intro hlapsed
    refine ⟨delivery_of_dueTime?_eq_none ?_, ?_⟩
    · rw [fst_dueTime?, DueTime.instant?_of_lapsed hlapsed, ite_self]
    · obtain ⟨t, hat, hlt⟩ := hlapsed
      refine ⟨t, hat, hlt, fun hallowed => ?_⟩
      -- An allowed time is not moved, so it would lie in the future as the delivery does.
      obtain ⟨due, hdue, hshift⟩ := Option.map_eq_some_iff.1 hdelivery
      obtain ⟨-, -, hinstant⟩ := eq_of_dueTime? hdue
      rw [hat, DueTime.instant?] at hinstant
      split at hinstant
      case isFalse => cases hinstant
      case isTrue =>
          obtain rfl := Option.some.inj hinstant
          rw [DeliveryWindow.shift_of_allowsAt hallowed] at hshift
          rw [← hshift] at hpending
          exact absurd hlt (Instant.not_lt.2 hpending)

/-- A reminder for eight o'clock may be delivered from nine. At half past eight it is
dropped; the same reminder is kept if it is counted from an event. -/
theorem morning_reminder_lapses :
    let fixed : Notification :=
      { id := "n", title := some "t", body := none, badgeCount := none, tapAction := none
        sound := none, launchImage := none, relevance := none, interruption := none
        scheduleCondition := none, due := .at ⟨1700035200000000⟩
        window := ⟨Calendar.Weekday.all, 540, 1020⟩, ideal := none, cancelationEvents := [] }
    let counted : Notification := { fixed with due := .afterEvent "signup" 3600 .latest }
    let store : Store := ⟨0, ⟨[⟨⟨"signup", .custom⟩, ⟨1700031600000000⟩⟩], []⟩, .started⟩
    let first := fun n : Notification =>
      (n.delivery store Environment.empty ⟨1700031600000000⟩ .utc ()).1
    let again := fun n : Notification =>
      (n.delivery store Environment.empty ⟨1700037000000000⟩ .utc ()).1
    first fixed = ⟨some ⟨⟨1700038800000000⟩, 0⟩, none⟩ ∧ again fixed = .never ∧
      first counted = first fixed ∧ again counted = first counted := by
  intro fixed counted store first again
  have hfixed : first fixed = ⟨some ⟨⟨1700038800000000⟩, 0⟩, none⟩ := by
    simp only [first, fixed, store]
    decide +kernel
  have hcounted : first counted = ⟨some ⟨⟨1700038800000000⟩, 0⟩, none⟩ := by
    simp only [first, counted, fixed, store]
    decide +kernel
  have hlater : (⟨1700031600000000⟩ : Instant) ≤ ⟨1700037000000000⟩ := by decide
  have hpending : (⟨1700037000000000⟩ : Instant) ≤ ⟨1700038800000000⟩ := by decide
  have hlapsed : fixed.due.Lapsed ⟨1700037000000000⟩ := ⟨⟨1700035200000000⟩, rfl, by decide⟩
  have hcounts : ¬ counted.due.Lapsed ⟨1700037000000000⟩ := by
    rintro ⟨t, hat, -⟩
    cases hat
  refine ⟨hfixed, ?_, hcounted.trans hfixed.symm, ?_⟩
  · exact ((delivery_of_pending rfl rfl (congrArg Delivery.time hfixed) hlater hpending).2
      hlapsed).1
  · rw [hcounted]
    exact (delivery_of_pending rfl rfl (congrArg Delivery.time hcounted) hlater hpending).1
      hcounts

/-! ## Good moments -/

theorem holds_iff {c : Condition} : (holds env c s).1 = true ↔ (c.evaluate env s).1 = .ok true := by
  rcases hresult : c.evaluate env s with ⟨_ | _ | _, s'⟩ <;> simp [holds, hresult]

theorem delivery_of_dueTime? {due : Instant} (h : n.dueTime? store env now s = (some due, s')) :
    (n.delivery store env now zone s).1 =
      ⟨(n.awaitMoment env due now zone s').1.1.map (n.window.shift zone),
        (n.awaitMoment env due now zone s').1.2⟩ := by
  rw [delivery, h]

/-- The wait ends now at a good moment. -/
theorem awaitMoment_of_good {ideal : IdealDelivery} (hideal : n.ideal = some ideal) {due : Instant}
    (hwaiting : n.isWaiting ideal due now zone)
    (hgood : (ideal.condition.evaluate env s).1 = .ok true) :
    (n.awaitMoment env due now zone s).1 = (some now, none) := by
  have hholds := holds_iff.2 hgood
  simp only [awaitMoment, hideal, hwaiting, if_true]
  rw [if_pos hholds]

/-- Any other time the notification waits on, until the wait is over. -/
theorem awaitMoment_of_not_good {ideal : IdealDelivery} (hideal : n.ideal = some ideal)
    {due : Instant} (hbad : n.isWaiting ideal due now zone →
      (ideal.condition.evaluate env s).1 ≠ .ok true) :
    (n.awaitMoment env due now zone s).1.1 = ideal.maxWait.bind due.addSeconds? := by
  simp only [awaitMoment, hideal]
  by_cases hwaiting : n.isWaiting ideal due now zone
  · have hholds : ¬ (holds env ideal.condition s).1 = true := fun h =>
      hbad hwaiting (holds_iff.1 h)
    simp only [hwaiting, if_true]
    rw [if_neg hholds]
  · simp only [hwaiting]
    rfl

/-- During its wait a notification is delivered at once if now is a good moment, and
otherwise when the wait is over, as soon as the window allows, which may be never. This
is so as long as its due time has not lapsed. A fixed time lapses as soon as the wait
begins, and then the notification is not delivered at all. -/
theorem delivery_of_waiting {ideal : IdealDelivery} (hideal : n.ideal = some ideal)
    (hcancelled : n.isCancelled store = false) (hmay : n.maySchedule env s = (true, s'))
    {due : Instant} (hfalls : n.due.FallsAt store due) (hrange : due.inRange) (hdue : due ≤ now)
    (hwait : ∀ seconds ∈ ideal.maxWait, now.micros - due.micros ≤ seconds * 1000000) :
    let isGood := n.window.allowsAt zone now ∧ (ideal.condition.evaluate env s').1 = .ok true
    let delivery := (n.delivery store env now zone s).1
    (¬ n.due.Lapsed now →
      (isGood → delivery = ⟨some (zone.clock now), none⟩) ∧
      (¬ isGood →
        delivery.time = (ideal.maxWait.bind due.addSeconds?).map (n.window.shift zone))) ∧
    (n.due.Lapsed now → delivery = .never) := by
  intro isGood delivery
  have hwaiting : n.isWaiting ideal due now zone ↔ n.window.allowsAt zone now := by
    cases hmax : ideal.maxWait with
    | none => simp [isWaiting, hmax, hdue]
    | some seconds => simp [isWaiting, hmax, hdue, hwait seconds hmax]
  constructor
  · intro hlapses
    have hinstant := DueTime.instant?_of_fallsAt hfalls hrange hlapses
    have hdue? : n.dueTime? store env now s = (some due, s') := by
      rw [dueTime?, hcancelled, hmay, hinstant]
      rfl
    have hdelivery : (n.delivery store env now zone s).1 =
        ⟨(n.awaitMoment env due now zone s').1.1.map (n.window.shift zone),
          (n.awaitMoment env due now zone s').1.2⟩ := delivery_of_dueTime? hdue?
    constructor
    · rintro ⟨hallowed, hgood⟩
      simp only [delivery, hdelivery, awaitMoment_of_good hideal (hwaiting.2 hallowed) hgood]
      rw [Option.map_some, DeliveryWindow.shift_of_allowsAt hallowed]
    · intro hbad
      have hnot : n.isWaiting ideal due now zone →
          (ideal.condition.evaluate env s').1 ≠ .ok true :=
        fun h hgood => hbad ⟨hwaiting.1 h, hgood⟩
      simp only [delivery, hdelivery, awaitMoment_of_not_good hideal hnot]
  · intro hlapsed
    refine delivery_of_dueTime?_eq_none ?_
    rw [fst_dueTime?, DueTime.instant?_of_lapsed hlapsed, ite_self]

/-- A notification that waits for a good moment, and finds one, is delivered if it is
counted from an event, and not if it has a fixed time. -/
theorem good_moment_after_fixed_time :
    let counted : Notification :=
      { id := "n", title := some "t", body := none, badgeCount := none, tapAction := none
        sound := none, launchImage := none, relevance := none, interruption := none
        scheduleCondition := none, due := .afterEvent "signup" 60 .latest
        window := ⟨Calendar.Weekday.all, 0, 1439⟩
        ideal := some ⟨⟨"true", none, some (.ok ⟨.bool true⟩)⟩, some 3600⟩
        cancelationEvents := [] }
    let fixed : Notification := { counted with due := .at ⟨1700000000000000⟩ }
    let store : Store := ⟨0, ⟨[⟨⟨"signup", .custom⟩, ⟨1699999940000000⟩⟩], []⟩, .started⟩
    let delivery := fun n : Notification =>
      (n.delivery store Environment.empty ⟨1700000100000000⟩ .utc ()).1
    counted.due.FallsAt store ⟨1700000000000000⟩ ∧ fixed.due.FallsAt store ⟨1700000000000000⟩ ∧
      delivery counted = ⟨some ⟨⟨1700000100000000⟩, 0⟩, none⟩ ∧ delivery fixed = .never := by
  intro counted fixed store delivery
  have hcounted : counted.due.FallsAt store ⟨1700000000000000⟩ :=
    .afterEvent (t := ⟨1699999940000000⟩) rfl rfl
  have hfixed : fixed.due.FallsAt store ⟨1700000000000000⟩ := .at _
  have hdue : (⟨1700000000000000⟩ : Instant) ≤ ⟨1700000100000000⟩ := by decide
  have hwait : ∀ seconds ∈ (some 3600 : Option Int),
      (1700000100000000 - 1700000000000000 : Int) ≤ seconds * 1000000 := by
    rintro seconds ⟨⟩
    decide
  have hlapsed : fixed.due.Lapsed ⟨1700000100000000⟩ := ⟨⟨1700000000000000⟩, rfl, by decide⟩
  have hcounts : ¬ counted.due.Lapsed ⟨1700000100000000⟩ := by
    rintro ⟨t, hat, -⟩
    cases hat
  refine ⟨hcounted, hfixed, ?_, ?_⟩
  · exact ((delivery_of_waiting rfl rfl rfl hcounted rfl hdue hwait).1 hcounts).1 ⟨rfl, rfl⟩
  · exact (delivery_of_waiting rfl rfl rfl hfixed rfl hdue hwait).2 hlapsed

end Notification

end Targeting
