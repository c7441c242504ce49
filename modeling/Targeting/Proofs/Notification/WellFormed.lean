/-
# Notifications that are accepted

Whatever is written, a notification that is accepted can be planned and shown: it has an identifier
and something to show, its window opens on some day and does not close before it opens, its wait for
a good moment is at least a second, and it is due at a time of the calendar or after an event that
has a name. Lenient validation gets there by dropping or replacing what it cannot use.

Strict validation only accepts drafts in which nothing had to be dropped or replaced. There is one
exception. Which occurrence of an event counts is only looked at next to an event, so next to a
timestamp it may be anything, and it makes no difference.
-/

import Targeting.Proofs.Config.Checked

namespace Targeting

open Calendar (Instant Weekday)
open Condition (exists_of_bind_eq_ok)

/-! ## What is expected -/

/-- What decides when a notification is due: a timestamp of the calendar without an event and an
offset, or an event with a name and without a timestamp. -/
inductive DueTimeDraft.Decides (draft : DueTimeDraft) : DueTime → Prop where
  | timestamp {seconds : Int64} {t : Instant} (htimestamp : draft.timestamp = some seconds)
    (hevent : nonEmpty draft.event = none) (hoffset : draft.offset = none)
    (ht : Instant.ofSeconds? seconds.toInt = some t) : Decides draft (.at t)
  | event {event : String} (htimestamp : draft.timestamp = none)
    (hevent : draft.event = some event) (hname : event ≠ "") :
    Decides draft (.afterEvent event (draft.offset.getD 0).toInt
      (Occurrence.ofText (draft.occurrence.getD "")))

/-- A notification that can be planned and shown. -/
structure Notification.WellFormed (n : Notification) : Prop where
  named : n.id ≠ ""
  shows : (∃ title ∈ n.title, title ≠ "") ∨ (∃ body ∈ n.body, body ≠ "") ∨
    ∃ count ∈ n.badgeCount, 0 ≤ count
  someDay : n.window.days ≠ []
  /-- No day comes twice, and Sunday comes first. -/
  daysAscend : n.window.days.Pairwise fun day later => day.fromSunday < later.fromSunday
  ordered : n.window.firstMinute ≤ n.window.lastMinute
  withinDay : n.window.lastMinute ≤ 1439
  cancelation : "" ∉ n.cancelationEvents
  relevance : ∀ score ∈ n.relevance, 0.0 ≤ score ∧ score ≤ 1.0
  waits : ∀ ideal ∈ n.ideal, ∀ seconds ∈ ideal.maxWait, 1 ≤ seconds
  due : (∃ t, n.due = .at t ∧ t.inRange) ∨
    ∃ event seconds occurrence, n.due = .afterEvent event seconds occurrence ∧ event ≠ ""

/-- What an occurrence is called; without a name it is the latest one, once. -/
def Occurrence.names : List String := ["", "latest-once", "latest", "first"]

/-- A draft without the mistakes that lenient validation puts up with. Empty texts count as absent,
and an occurrence next to a timestamp does not count. -/
structure NotificationDraft.Flawless (draft : NotificationDraft) (engine : Condition.Engine) :
    Prop where
  badge : ∀ count ∈ draft.badgeCount, 0 ≤ count
  dayStart : ∀ text ∈ nonEmpty draft.dayStart, (minuteOfDay? text).isSome
  dayEnd : ∀ text ∈ nonEmpty draft.dayEnd, (minuteOfDay? text).isSome
  interruption : ∀ level ∈ nonEmpty draft.interruption, level ∈ interruptionLevels
  occurrence : draft.due.timestamp = none → draft.due.occurrence.getD "" ∈ Occurrence.names
  schedule : ∀ source ∈ nonEmpty draft.scheduleCondition,
    ∃ program, engine.compile source = .ok program
  ideal : ∀ ideal ∈ draft.ideal, ∃ source ∈ nonEmpty ideal.condition,
    ∃ program, engine.compile source = .ok program

/-! ## Single checks -/

/-- The days of a list of names come in the order of the week. -/
theorem daysNamed_sublist (text : String) : (daysNamed text).Sublist Weekday.all :=
  List.filter_sublist

theorem Occurrence.mem_names_of_ne_unknown {text : String}
    (h : ∀ name, ofText text ≠ .unknown name) : text ∈ names := by
  unfold ofText at h
  split at h
  case h_5 => exact absurd rfl (h text)
  all_goals simp [names]

namespace DueTime

variable {mode : Condition.Mode} {draft : DueTimeDraft} {due : DueTime}

theorem decides_of_ofDraft (h : ofDraft mode draft = .ok due) : draft.Decides due := by
  unfold ofDraft at h
  split at h
  case h_1 => cases h
  case h_2 => cases h
  case h_3 seconds htimestamp hevent =>
      split at h
      case isTrue => cases h
      case isFalse hoffset =>
        cases ht : Instant.ofSeconds? seconds.toInt with
        | none => simp [ht] at h
        | some t =>
            simp only [ht, Except.ok.injEq] at h
            exact h ▸ .timestamp htimestamp hevent (by simpa using hoffset) ht
  case h_4 event htimestamp hevent =>
      obtain ⟨hwritten, hname⟩ := nonEmpty_eq_some_iff.1 hevent
      dsimp only at h
      split at h
      case h_1 => cases h
      case h_2 =>
        split at h
        case isTrue =>
          cases h
          exact .event htimestamp hwritten hname
        case isFalse => cases h

/-- Next to an event strict validation knows the occurrence. -/
theorem mem_names_of_strict (h : ofDraft .strict draft = .ok due)
    (htimestamp : draft.timestamp = none) : draft.occurrence.getD "" ∈ Occurrence.names := by
  refine Occurrence.mem_names_of_ne_unknown fun name hunknown => ?_
  unfold ofDraft at h
  rw [htimestamp] at h
  cases hevent : nonEmpty draft.event with
  | none => simp [hevent] at h
  | some event => simp [hevent, hunknown] at h

/-- Next to a timestamp the occurrence makes no difference. -/
theorem ofDraft_occurrence {seconds : Int64} (htimestamp : draft.timestamp = some seconds)
    (occurrence : Option String) :
    ofDraft mode { draft with occurrence } = ofDraft mode draft := by
  unfold ofDraft
  rw [htimestamp]
  cases nonEmpty draft.event <;> rfl

end DueTime

namespace Notification

variable {mode : Condition.Mode} {engine : Condition.Engine} {id : String}
  {draft : NotificationDraft} {n : Notification}

theorem checkBadge_spec {written count : Option Int64} (h : checkBadge mode written = .ok count) :
    (∀ c ∈ count, 0 ≤ c) ∧ (mode = .strict → ∀ c ∈ written, 0 ≤ c) := by
  cases written with
  | none =>
      cases h
      exact ⟨nofun, fun _ => nofun⟩
  | some c =>
      by_cases hnegative : c < 0
      · cases mode <;> simp only [checkBadge, hnegative, if_true, reduceCtorEq] at h
        cases h
        exact ⟨nofun, nofun⟩
      · simp only [checkBadge, hnegative, if_false, Except.ok.injEq] at h
        have hcount : 0 ≤ c := Int64.not_lt.1 hnegative
        exact h ▸ ⟨by simpa using hcount, fun _ => by simpa using hcount⟩

/-- Strict validation reads each end of the day. -/
theorem isSome_minuteOfDay?_of_strict {field text : String} {default minute : Nat}
    {written : Option String} (h : checkMinute .strict field default written = .ok minute)
    (hwritten : text ∈ written) : (minuteOfDay? text).isSome := by
  obtain rfl := Option.mem_def.1 hwritten
  cases hread : minuteOfDay? text with
  | none => simp [checkMinute, hread] at h
  | some minute => rfl

theorem checkWindow_spec {window : DeliveryWindow} (h : checkWindow mode draft = .ok window) :
    window.days.Sublist Weekday.all ∧ (mode = .strict →
      (∀ text ∈ nonEmpty draft.dayStart, (minuteOfDay? text).isSome) ∧
        ∀ text ∈ nonEmpty draft.dayEnd, (minuteOfDay? text).isSome) := by
  unfold checkWindow at h
  obtain ⟨-, h⟩ := guard_eq_ok h
  obtain ⟨-, h⟩ := guard_eq_ok h
  obtain ⟨first, hfirst, h⟩ := exists_of_bind_eq_ok h
  obtain ⟨last, hlast, h⟩ := exists_of_bind_eq_ok h
  obtain ⟨-, h⟩ := guard_eq_ok h
  cases h
  refine ⟨?_, ?_⟩
  · cases nonEmpty draft.days with
    | none => exact List.Sublist.refl _
    | some names => exact daysNamed_sublist names
  · rintro rfl
    exact ⟨fun _ => isSome_minuteOfDay?_of_strict hfirst,
      fun _ => isSome_minuteOfDay?_of_strict hlast⟩

theorem ascend_of_sublist {days : List Weekday} (h : days.Sublist Weekday.all) :
    days.Pairwise fun day later => day.fromSunday < later.fromSunday :=
  List.Pairwise.sublist h (by decide)

/-! ## The notification -/

theorem Passes.shows_something (h : n.Passes engine id draft) :
    (∃ title ∈ n.title, title ≠ "") ∨ (∃ body ∈ n.body, body ≠ "") ∨
      ∃ count ∈ n.badgeCount, 0 ≤ count := by
  cases htitle : n.title with
  | some title => exact .inl ⟨title, rfl, (nonEmpty_eq_some_iff.1 (h.title_eq.symm.trans htitle)).2⟩
  | none =>
      cases hbody : n.body with
      | some body =>
          exact .inr (.inl ⟨body, rfl, (nonEmpty_eq_some_iff.1 (h.body_eq.symm.trans hbody)).2⟩)
      | none =>
          have hcount := h.shows
          cases hbadge : n.badgeCount with
          | some count => exact .inr (.inr ⟨count, rfl, (checkBadge_spec h.badge).1 count hbadge⟩)
          | none => simp [htitle, hbody, hbadge] at hcount

theorem Passes.wellFormed (h : n.Passes engine id draft) : n.WellFormed := by
  have hopens := opens_of_checkWindow h.window
  exact {
    named := h.id_eq ▸ h.id_ne
    shows := h.shows_something
    someDay := hopens.someDay
    daysAscend := ascend_of_sublist (checkWindow_spec h.window).1
    ordered := hopens.ordered
    withinDay := hopens.withinDay
    cancelation := h.cancelationEvents_eq ▸ h.cancelation
    relevance := by
      intro score hscore
      have hbounds := h.relevance
      rw [← h.relevance_eq, Option.mem_def.1 hscore] at hbounds
      simpa [isRelevance] using hbounds
    waits := one_le_of_checkIdeal? h.ideal
    due := by
      cases hdue : n.due with
      | «at» t => exact .inl ⟨t, rfl, DueTime.inRange_of_ofDraft (hdue ▸ h.due)⟩
      | afterEvent event seconds occurrence =>
          have hdecides := DueTime.decides_of_ofDraft h.due
          rw [hdue] at hdecides
          cases hdecides with
          | event _ _ hname => exact .inr ⟨event, _, _, rfl, hname⟩ }

/-- Strict validation accepts conditions that the engine compiles. -/
theorem exists_program_of_prepared (hstrict : engine.mode = .strict) {source : String}
    {c : Condition} (h : Condition.Prepared engine source c) :
    ∃ program, engine.compile source = .ok program := by
  obtain ⟨mode, names⟩ := engine
  obtain rfl : mode = .strict := hstrict
  obtain ⟨program, hprogram, -⟩ := h.of_strict
  exact ⟨program, hprogram⟩

theorem Passes.flawless (h : n.Passes engine id draft) (hstrict : engine.mode = .strict) :
    draft.Flawless engine where
  badge := (checkBadge_spec h.badge).2 hstrict
  dayStart := ((checkWindow_spec h.window).2 hstrict).1
  dayEnd := ((checkWindow_spec h.window).2 hstrict).2
  interruption := h.interruption hstrict
  occurrence := DueTime.mem_names_of_strict (hstrict ▸ h.due)
  schedule source hsource := by
    have hprepared := checkSchedule_eq_ok_iff.1 h.schedule
    rw [Option.mem_def.1 hsource] at hprepared
    generalize n.scheduleCondition = condition at hprepared
    cases hprepared with
    | some hcondition => exact exists_program_of_prepared hstrict hcondition
  ideal ideal hideal := by
    have hcheck := h.ideal
    rw [Option.mem_def.1 hideal, checkIdeal?] at hcheck
    cases hwritten : checkIdeal engine id ideal with
    | error issue => simp [hwritten, Except.map] at hcheck
    | ok checked =>
        obtain ⟨source, hsource, hprepared⟩ := prepared_of_checkIdeal hwritten
        exact ⟨source, hsource, exists_program_of_prepared hstrict hprepared⟩

/-- **A notification that is accepted is well formed.** What decides when it is due is a timestamp
or an event, and not both. Strict validation accepts no mistakes, except for an occurrence next to a
timestamp, which can be anything. -/
theorem accepted_notification_is_wellFormed (h : ofDraft engine id draft = .ok n) :
    n.id = id ∧ n.WellFormed ∧ draft.due.Decides n.due ∧
      (engine.mode = .strict → draft.Flawless engine) ∧
      ∀ seconds, draft.due.timestamp = some seconds → ∀ occurrence,
        ofDraft engine id { draft with due := { draft.due with occurrence } } = .ok n := by
  have hpasses := passes_of_ofDraft h
  refine ⟨hpasses.id_eq, hpasses.wellFormed, DueTime.decides_of_ofDraft hpasses.due,
    hpasses.flawless, fun seconds htimestamp occurrence => ?_⟩
  rw [← h]
  unfold ofDraft
  rw [DueTime.ofDraft_occurrence htimestamp]
  rfl

/-- A greeting at a time of the calendar, with an occurrence that does not exist. -/
def greeting : NotificationDraft where
  title := some "t"
  body := none
  badgeCount := none
  tapAction := none
  sound := none
  launchImage := none
  relevance := none
  interruption := none
  scheduleCondition := none
  due := ⟨some 1700000000, none, none, some "middle"⟩
  days := none
  dayStart := none
  dayEnd := none
  ideal := none
  cancelationEvents := none

/-- Strict validation accepts the greeting. After an event it refuses the occurrence. -/
theorem greeting_is_accepted :
    (∃ n, ofDraft ⟨.strict, []⟩ "n" greeting = .ok n ∧ n.WellFormed ∧
      greeting.due.Decides n.due ∧ greeting.Flawless ⟨.strict, []⟩) ∧
      greeting.due.occurrence.getD "" ∉ Occurrence.names ∧
      DueTime.ofDraft .strict { greeting.due with timestamp := none, event := some "e" } =
        .error (.unknownOccurrence "middle") := by
  have hok : (ofDraft ⟨.strict, []⟩ "n" greeting).toOption.isSome := by decide +kernel
  refine ⟨?_, by decide, rfl⟩
  cases h : ofDraft ⟨.strict, []⟩ "n" greeting with
  | error issue => simp [h, Except.toOption] at hok
  | ok n =>
      obtain ⟨-, hwellFormed, hdecides, hflawless, -⟩ := accepted_notification_is_wellFormed h
      exact ⟨n, rfl, hwellFormed, hdecides, hflawless rfl⟩

end Notification

end Targeting
