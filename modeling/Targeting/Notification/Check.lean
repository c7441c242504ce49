/-
# Checking notifications

A notification that is written becomes one that can be planned, or is refused for the first
thing that is wrong with it. Empty texts count as absent. Lenient validation puts up with
mistakes that cost no more than the field they are in: it drops a negative badge count, takes
the whole day for an unreadable time of day, and keeps interruption levels and occurrences that
it does not know.
-/

import Targeting.Notification.Basic
import Targeting.Notification.Draft
import Targeting.Text.Blank

namespace Targeting

open Calendar (Instant Weekday)

/-- What is wrong with the time a notification is due. -/
inductive DueTimeIssue where
  | neither
  | both
  | timestampWithOffset
  | timestampRange (seconds : Int64)
  | offsetRange
  | unknownOccurrence (name : String)
  deriving Repr, DecidableEq

/-- Description of an issue. -/
def DueTimeIssue.message : DueTimeIssue → String
  | neither => "DeliveryTime must have either a Timestamp or an EventName defined."
  | both => "DeliveryTime cannot have both a Timestamp and an EventName defined."
  | timestampWithOffset =>
    "DeliveryTime cannot have both a Timestamp and an EventOffset defined."
  | timestampRange seconds => "DeliveryTime timestamp out of range: " ++ Word.render seconds
  | offsetRange => "DeliveryTime eventOffsetSeconds out of range"
  | unknownOccurrence name =>
    "Notification event instance must be 'first', 'latest' or 'latest-once' (default), got '" ++
      name ++ "'"

/-- What is wrong with a notification. -/
inductive NotificationIssue where
  | noId
  | negativeBadge
  | nothingToShow
  | noDay
  | oneEndOfDay
  | timeOfDay (field value : String)
  | startAfterEnd
  | relevance
  | interruption (level : String)
  | condition (id : String)
  | cancelation (id : String)
  | idealCondition (id : String)
  | maxWait
  | dueTime (issue : DueTimeIssue)
  deriving Repr, DecidableEq

/-- Levels of interruption that are known. -/
def interruptionLevels : List String := ["active", "critical", "passive", "timeSensitive"]

/-- Description of an issue. -/
def NotificationIssue.message : NotificationIssue → String
  | noId => "Notification must have ID"
  | negativeBadge => "Notification badgeCount must be greater than or equal to 0"
  | nothingToShow => "Notifications must have one or more of: title, body, or badgeCount."
  | noDay => "Notifications must have at least one day of week valid for delivery."
  | oneEndOfDay =>
    "DeliveryTime must have both deliveryTimeOfDayStart and deliveryTimeOfDayEnd defined " ++
      "if either is defined."
  | timeOfDay field value => "Invalid " ++ field ++ ". Expect HH:MM format. Was: " ++ value
  | startAfterEnd =>
    "Notifications must have a deliveryTimeOfDayStart before deliveryTimeOfDayEnd."
  | relevance => "Relevance score must be between 0 and 1 if provided."
  | interruption level =>
    "Interruption level must be one of [" ++
      String.intercalate ", " (interruptionLevels.map Text.Quoted.display) ++ "], got " ++ level
  | condition id => "Invalid condition in notification [" ++ id ++ "]"
  | cancelation id => "Notification '" ++ id ++ "' has an blank cancelation event"
  | idealCondition id =>
    "Ideal delivery condition invalid for notification with id '" ++ id ++ "'"
  | maxWait =>
    "Notifications must have a max wait time for ideal delivery condition. " ++
      "Valid values are -1 (forever) or values greater than 0."
  | dueTime issue => "Notification has invalid delivery time: " ++ issue.message

/-- A text, unless it is empty. -/
def nonEmpty (text : Option String) : Option String :=
  text.filter (· ≠ "")

theorem nonEmpty_eq_some_iff {text : Option String} {t : String} :
    nonEmpty text = some t ↔ text = some t ∧ t ≠ "" := by
  rw [nonEmpty, Option.filter_eq_some_iff, decide_eq_true_iff]

/-- Seconds that an offset or a wait may last: their milliseconds are a word. -/
def secondsInRange (seconds : Int) : Bool :=
  -9223372036854775 ≤ seconds && seconds ≤ 9223372036854775

/-- Minutes since midnight of a time of day in hours and minutes. -/
def minuteOfDay? (text : String) : Option Nat := do
  let (hours, minutes) ← Split.once ':' text.toList
  let hours ← Digits.unsigned? hours
  let minutes ← Digits.unsigned? minutes
  if hours ≤ 23 ∧ minutes ≤ 59 then some (60 * hours + minutes) else none

/-- The days that a list of names separated by commas has, Sunday first. Other names are passed
over. -/
def daysNamed (text : String) : List Weekday :=
  let names := (Split.on ',' text.toList).map fun name => String.ofList (Blank.trim name)
  Weekday.all.filter fun day => names.contains day.name

/-- The occurrence that a text names; the latest one is counted once unless something else is
said. -/
def Occurrence.ofText : String → Occurrence
  | "" | "latest-once" => latestOnce
  | "latest" => latest
  | "first" => first
  | other => unknown other

/-- When a notification is due: at a timestamp, or after an event. -/
def DueTime.ofDraft (mode : Condition.Mode) (draft : DueTimeDraft) : Except DueTimeIssue DueTime :=
  match draft.timestamp, nonEmpty draft.event with
  | none, none => .error .neither
  | some _, some _ => .error .both
  | some seconds, none =>
    if draft.offset.isSome then .error .timestampWithOffset
    else match Instant.ofSeconds? seconds.toInt with
      | some t => .ok (.at t)
      | none => .error (.timestampRange seconds)
  | none, some event =>
    let occurrence := Occurrence.ofText (draft.occurrence.getD "")
    let seconds := (draft.offset.getD 0).toInt
    match mode, occurrence with
    | .strict, .unknown name => .error (.unknownOccurrence name)
    | _, _ =>
      if secondsInRange seconds then .ok (.afterEvent event seconds occurrence)
      else .error .offsetRange

namespace Notification

/-- The badge count, if it is one. -/
def checkBadge (mode : Condition.Mode) (count : Option Int64) :
    Except NotificationIssue (Option Int64) :=
  match count with
  | some count =>
    if count < 0 then
      match mode with
      | .strict => .error .negativeBadge
      | .lenient => .ok none
    else .ok (some count)
  | none => .ok none

/-- The minute of an end of the window. -/
def checkMinute (mode : Condition.Mode) (field : String) (default : Nat) (text : Option String) :
    Except NotificationIssue Nat :=
  match text with
  | none => .ok default
  | some text =>
    match minuteOfDay? text, mode with
    | some minute, _ => .ok minute
    | none, .strict => .error (.timeOfDay field text)
    | none, .lenient => .ok default

/-- The window of delivery. -/
def checkWindow (mode : Condition.Mode) (draft : NotificationDraft) :
    Except NotificationIssue DeliveryWindow := do
  let days := match nonEmpty draft.days with
    | some names => daysNamed names
    | none => Weekday.all
  if days.isEmpty then throw .noDay
  let dayStart := nonEmpty draft.dayStart
  let dayEnd := nonEmpty draft.dayEnd
  if dayStart.isSome ≠ dayEnd.isSome then throw .oneEndOfDay
  let first ← checkMinute mode "deliveryTimeOfDayStart" 0 dayStart
  let last ← checkMinute mode "deliveryTimeOfDayEnd" DeliveryWindow.endOfDay dayEnd
  if last < first then throw .startAfterEnd
  pure ⟨days, first, last⟩

/-- Whether a relevance lies between zero and one. -/
def isRelevance (x : Float) : Bool := 0.0 ≤ x && x ≤ 1.0

/-- A condition, prepared. Any problem counts as the given issue. -/
def checkCondition (engine : Condition.Engine) (issue : NotificationIssue) (source : String) :
    Except NotificationIssue Condition :=
  match (Condition.ofSource source).prepare engine with
  | (.ok (), condition) => .ok condition
  | (.error _, _) => .error issue

/-- The condition for scheduling, if there is one. -/
def checkSchedule (engine : Condition.Engine) (id : String) (source : Option String) :
    Except NotificationIssue (Option Condition) :=
  match nonEmpty source with
  | none => .ok none
  | some source => (checkCondition engine (.condition id) source).map some

/-- Ideal delivery: a condition, and a wait of at least a second or without end. -/
def checkIdeal (engine : Condition.Engine) (id : String) (draft : IdealDeliveryDraft) :
    Except NotificationIssue IdealDelivery := do
  let source ← match nonEmpty draft.condition with
    | some source => pure source
    | none => throw (.idealCondition id)
  let condition ← checkCondition engine (.idealCondition id) source
  let seconds := draft.maxWait.toInt
  if seconds = -1 then pure ⟨condition, none⟩
  else if 1 ≤ seconds then
    pure ⟨condition, if secondsInRange seconds then some seconds else none⟩
  else throw .maxWait

/-- Ideal delivery, if there is one. -/
def checkIdeal? (engine : Condition.Engine) (id : String) (draft : Option IdealDeliveryDraft) :
    Except NotificationIssue (Option IdealDelivery) :=
  match draft with
  | none => .ok none
  | some draft => (checkIdeal engine id draft).map some

/-- Check a notification that is written under an identifier. -/
def ofDraft (engine : Condition.Engine) (id : String) (draft : NotificationDraft) :
    Except NotificationIssue Notification := do
  if id = "" then throw .noId
  let title := nonEmpty draft.title
  let body := nonEmpty draft.body
  let badgeCount ← checkBadge engine.mode draft.badgeCount
  if title.isNone ∧ body.isNone ∧ badgeCount.isNone then throw .nothingToShow
  let window ← checkWindow engine.mode draft
  if !draft.relevance.all isRelevance then throw .relevance
  let interruption := nonEmpty draft.interruption
  match engine.mode, interruption with
  | .strict, some level =>
    if !interruptionLevels.contains level then throw (.interruption level)
  | _, _ => pure ()
  let scheduleCondition ← checkSchedule engine id draft.scheduleCondition
  let cancelationEvents := draft.cancelationEvents.getD []
  if cancelationEvents.any (· = "") then throw (.cancelation id)
  let ideal ← checkIdeal? engine id draft.ideal
  let due ← match DueTime.ofDraft engine.mode draft.due with
    | .ok due => pure due
    | .error issue => throw (.dueTime issue)
  pure {
    id, title, body, badgeCount, interruption, scheduleCondition, due, window, ideal,
    cancelationEvents
    tapAction := nonEmpty draft.tapAction
    sound := nonEmpty draft.sound
    launchImage := nonEmpty draft.launchImage
    relevance := draft.relevance }

end Notification

end Targeting
