/-
# What the check of a notification ensures

A notification that is built from a draft has a window that opens on some day, waits
for a good moment at least a second, and is not due outside of the calendar. This is
all that planning relies on.
-/

import Targeting.Notification.Check
import Targeting.Proofs.Condition.Typing
import Targeting.Proofs.Notification.Window

namespace Targeting

open Calendar (Instant Weekday)
open Condition (exists_of_bind_eq_ok)

/-- A guard that lets a check go on. -/
theorem guard_eq_ok {ε β : Type} {c : Prop} [Decidable c] {err : ε} {next : Unit → Except ε β}
    {b : β} (h : (if c then (throw err : Except ε Unit) >>= next else next ()) = .ok b) :
    ¬ c ∧ next () = .ok b := by
  by_cases hc : c
  · rw [if_pos hc] at h
    cases h
  · rw [if_neg hc] at h
    exact ⟨hc, h⟩

/-- A guard that only the strict mode has. -/
theorem strict_guard_eq_ok {β : Type} {mode : Condition.Mode} {level? : Option String}
    {bad : String → Bool} {err : String → NotificationIssue}
    {next : Unit → Except NotificationIssue β} {b : β}
    (h : (match mode, level? with
      | .strict, some level =>
        if bad level then (throw (err level) : Except NotificationIssue Unit) >>= next else next ()
      | _, _ => next ()) = .ok b) :
    (mode = .strict → ∀ level ∈ level?, bad level = false) ∧ next () = .ok b := by
  split at h
  case h_1 =>
      obtain ⟨hgood, h⟩ := guard_eq_ok h
      exact ⟨fun _ => by simpa using hgood, h⟩
  case h_2 hother =>
      exact ⟨fun hstrict level hlevel => absurd hlevel (hother level hstrict), h⟩

theorem minuteOfDay?_le {text : String} {minute : Nat} (h : minuteOfDay? text = some minute) :
    minute ≤ DeliveryWindow.endOfDay := by
  simp only [minuteOfDay?, Option.bind_eq_bind, Option.bind_eq_some_iff] at h
  obtain ⟨⟨hours, minutes⟩, -, hour, -, min, -, h⟩ := h
  split at h
  case isTrue hlimits =>
      obtain rfl := Option.some.inj h
      rw [DeliveryWindow.endOfDay]
      omega
  case isFalse => cases h

theorem DueTime.inRange_of_ofDraft {mode : Condition.Mode} {draft : DueTimeDraft} {t : Instant}
    (h : DueTime.ofDraft mode draft = .ok (.at t)) : t.inRange := by
  unfold DueTime.ofDraft at h
  split at h
  case h_1 => cases h
  case h_2 => cases h
  case h_3 seconds _ _ =>
      split at h
      · cases h
      · cases hseconds : Instant.ofSeconds? seconds.toInt with
        | none => simp [hseconds] at h
        | some t' =>
            simp only [hseconds, Except.ok.injEq, DueTime.at.injEq] at h
            exact h ▸ (Instant.inRange_of_ofMicros? hseconds).2
  case h_4 =>
      dsimp only at h
      split at h
      · cases h
      · split at h <;> cases h

namespace Notification

theorem checkMinute_le {mode : Condition.Mode} {field : String} {default minute : Nat}
    {text : Option String} (hdefault : default ≤ DeliveryWindow.endOfDay)
    (h : checkMinute mode field default text = .ok minute) :
    minute ≤ DeliveryWindow.endOfDay := by
  cases text with
  | none =>
      cases h
      exact hdefault
  | some text =>
      cases hread : minuteOfDay? text with
      | some read =>
          simp only [checkMinute, hread, Except.ok.injEq] at h
          exact h ▸ minuteOfDay?_le hread
      | none =>
          cases mode <;> simp only [checkMinute, hread, Except.ok.injEq, reduceCtorEq] at h
          exact h ▸ hdefault

theorem opens_of_checkWindow {mode : Condition.Mode} {draft : NotificationDraft}
    {window : DeliveryWindow} (h : checkWindow mode draft = .ok window) : window.Opens := by
  unfold checkWindow at h
  obtain ⟨hdays, h⟩ := guard_eq_ok h
  obtain ⟨-, h⟩ := guard_eq_ok h
  obtain ⟨first, -, h⟩ := exists_of_bind_eq_ok h
  obtain ⟨last, hlast, h⟩ := exists_of_bind_eq_ok h
  obtain ⟨hordered, h⟩ := guard_eq_ok h
  cases h
  exact ⟨by simpa using hdays, Nat.le_of_not_lt hordered,
    checkMinute_le (Nat.le_refl _) hlast⟩

theorem one_le_of_checkIdeal {engine : Condition.Engine} {id : String}
    {draft : IdealDeliveryDraft} {ideal : IdealDelivery}
    (h : checkIdeal engine id draft = .ok ideal) {seconds : Int}
    (hwait : ideal.maxWait = some seconds) : 1 ≤ seconds := by
  unfold checkIdeal at h
  cases hsource : nonEmpty draft.condition with
  | none =>
      rw [hsource] at h
      cases h
  | some source =>
      rw [hsource] at h
      obtain ⟨_, -, h⟩ := exists_of_bind_eq_ok h
      obtain ⟨condition, -, h⟩ := exists_of_bind_eq_ok h
      dsimp only at h
      split at h
      · cases h
        cases hwait
      · split at h
        case isTrue hone =>
            cases h
            dsimp only at hwait
            split at hwait <;> cases hwait
            exact hone
        case isFalse => cases h

theorem one_le_of_checkIdeal? {engine : Condition.Engine} {id : String}
    {draft : Option IdealDeliveryDraft} {ideal? : Option IdealDelivery}
    (h : checkIdeal? engine id draft = .ok ideal?) :
    ∀ ideal ∈ ideal?, ∀ seconds ∈ ideal.maxWait, 1 ≤ seconds := by
  cases draft with
  | none =>
      cases h
      simp
  | some draft =>
      cases hcheck : checkIdeal engine id draft with
      | error => simp [checkIdeal?, hcheck, Except.map] at h
      | ok ideal =>
          simp only [checkIdeal?, hcheck, Except.map, Except.ok.injEq] at h
          rintro _ hideal seconds hwait
          obtain rfl : ideal = _ := by simpa [← h] using hideal
          exact one_le_of_checkIdeal hcheck hwait

/-- A notification that is the result of a check. -/
def IsChecked (n : Notification) : Prop := ∃ engine id draft, ofDraft engine id draft = .ok n

/-- What planning relies on. -/
structure Sound (n : Notification) : Prop where
  opens : n.window.Opens
  waits : ∀ ideal ∈ n.ideal, ∀ seconds ∈ ideal.maxWait, 1 ≤ seconds
  inCalendar : ∀ t, n.due = .at t → t.inRange

/-- What a notification takes over from its draft has passed its own check. -/
structure Passes (n : Notification) (engine : Condition.Engine) (id : String)
    (draft : NotificationDraft) : Prop where
  id_eq : n.id = id
  id_ne : id ≠ ""
  title_eq : n.title = nonEmpty draft.title
  body_eq : n.body = nonEmpty draft.body
  badge : checkBadge engine.mode draft.badgeCount = .ok n.badgeCount
  shows : ¬ (n.title.isNone ∧ n.body.isNone ∧ n.badgeCount.isNone)
  window : checkWindow engine.mode draft = .ok n.window
  relevance_eq : n.relevance = draft.relevance
  relevance : draft.relevance.all isRelevance
  interruption : engine.mode = .strict →
    ∀ level ∈ nonEmpty draft.interruption, level ∈ interruptionLevels
  schedule : checkSchedule engine id draft.scheduleCondition = .ok n.scheduleCondition
  cancelationEvents_eq : n.cancelationEvents = draft.cancelationEvents.getD []
  cancelation : "" ∉ draft.cancelationEvents.getD []
  ideal : checkIdeal? engine id draft.ideal = .ok n.ideal
  due : DueTime.ofDraft engine.mode draft.due = .ok n.due

theorem passes_of_ofDraft {engine : Condition.Engine} {id : String} {draft : NotificationDraft}
    {n : Notification} (h : ofDraft engine id draft = .ok n) : n.Passes engine id draft := by
  unfold ofDraft at h
  obtain ⟨hid, h⟩ := guard_eq_ok h
  obtain ⟨badge, hbadge, h⟩ := exists_of_bind_eq_ok h
  obtain ⟨hshows, h⟩ := guard_eq_ok h
  obtain ⟨window, hwindow, h⟩ := exists_of_bind_eq_ok h
  obtain ⟨hrelevance, h⟩ := guard_eq_ok h
  obtain ⟨hlevels, h⟩ := strict_guard_eq_ok h
  obtain ⟨schedule, hschedule, h⟩ := exists_of_bind_eq_ok h
  obtain ⟨hcancelation, h⟩ := guard_eq_ok h
  obtain ⟨ideal, hideal, h⟩ := exists_of_bind_eq_ok h
  cases hdue : DueTime.ofDraft engine.mode draft.due with
  | error issue =>
      rw [hdue] at h
      cases h
  | ok due =>
      rw [hdue] at h
      cases h
      exact {
        id_eq := rfl
        id_ne := hid
        title_eq := rfl
        body_eq := rfl
        badge := hbadge
        shows := hshows
        window := hwindow
        relevance_eq := rfl
        relevance := by simpa using hrelevance
        interruption := fun hstrict level hlevel => by simpa using hlevels hstrict level hlevel
        schedule := hschedule
        cancelationEvents_eq := rfl
        cancelation := by simpa using hcancelation
        ideal := hideal
        due := hdue }

theorem IsChecked.sound {n : Notification} (h : n.IsChecked) : n.Sound := by
  obtain ⟨engine, id, draft, h⟩ := h
  have hpasses := passes_of_ofDraft h
  exact ⟨opens_of_checkWindow hpasses.window, one_le_of_checkIdeal? hpasses.ideal,
    fun t ht => DueTime.inRange_of_ofDraft (hpasses.due.trans (congrArg Except.ok ht))⟩

end Notification

end Targeting
