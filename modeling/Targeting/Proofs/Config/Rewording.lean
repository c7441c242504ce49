/-
# Rewording conditions

The conditions of a configuration can be reworded in the document, before it is read, or
in the draft that is read from it. Both come to the same, so what is read depends on the
texts of conditions in no other way. This is less obvious for the condition of a fork: it
is part of a payload, which is first read as a value, and only an action of the right
kind has one.

In a document all occurrences of a member are reworded, also those that a later member
of the same name replaces.
-/

import Targeting.Proofs.Config.Checked
import Targeting.Proofs.Json.Fields

namespace Targeting

open Json (Written field optional onField)

/-! ## Drafts -/

/-- Reword the condition in the payload of a fork. -/
def Json.rewordPayload (f : Place → String → String) (action : String) : Json → Json :=
  mapFields ["condition", "passedActionName", "failedActionName"]
    (onField "condition" (mapText (f (.fork action))))

section Drafts

variable (f : Place → String → String)

/-- Reword the condition of a fork. -/
def ForkDraft.reword (action : String) (draft : ForkDraft) : ForkDraft :=
  { draft with condition := f (.fork action) draft.condition }

/-- Reword the guard of an action, and the condition of a fork, which is part of its payload. -/
def ActionDraft.reword (name : String) (draft : ActionDraft) : ActionDraft :=
  { draft with
    guard := draft.guard.map (f (.guard name))
    data :=
      if draft.kind = "conditional_action" then Json.rewordPayload f name draft.data
      else draft.data }

/-- Reword the guard of a trigger. -/
def TriggerDraft.reword (name : String) (draft : TriggerDraft) : TriggerDraft :=
  { draft with guard := draft.guard.map (f (.trigger name)) }

/-- Reword the condition of ideal delivery. -/
def IdealDeliveryDraft.reword (id : String) (draft : IdealDeliveryDraft) : IdealDeliveryDraft :=
  { draft with condition := draft.condition.map (f (.ideal id)) }

/-- Reword the conditions of a notification. -/
def NotificationDraft.reword (id : String) (draft : NotificationDraft) : NotificationDraft :=
  { draft with
    scheduleCondition := draft.scheduleCondition.map (f (.schedule id))
    ideal := draft.ideal.map (IdealDeliveryDraft.reword f id) }

/-- Reword the conditions of a configuration. -/
def ConfigDraft.reword (draft : ConfigDraft) : ConfigDraft :=
  { draft with
    actions := NameMap.map (ActionDraft.reword f) draft.actions
    triggers := NameMap.map (TriggerDraft.reword f) draft.triggers
    conditions := NameMap.map (fun name => f (.named name)) draft.conditions
    notifications := NameMap.map (NotificationDraft.reword f) draft.notifications }

end Drafts

/-! ## Documents -/

namespace Json.Written

variable (f : Place → String → String)

/-- Reword the condition in the payload of a fork. -/
def rewordFork (action : String) : Written → Written :=
  mapFields ["condition", "passedActionName", "failedActionName"]
    (onField "condition" (mapText (f (.fork action))))

/-- Whether an action is a fork. -/
def isFork (w : Written) : Bool :=
  (w.record? ["actionType", "condition", "actionData"] 0).bind
    (fun fields => field fields "actionType" "" text?) = some "conditional_action"

/-- Reword the guard of an action, and the condition of a fork. -/
def rewordAction (name : String) (w : Written) : Written :=
  (w.mapFields ["actionType", "condition", "actionData"]
      (onField "condition" (mapText (f (.guard name))))).mapFields
    ["actionType", "condition", "actionData"]
    (onField "actionData" (if w.isFork then rewordFork f name else id))

/-- Reword the guard of a trigger. -/
def rewordTrigger (name : String) : Written → Written :=
  mapFields ["eventName", "actionName", "condition"]
    (onField "condition" (mapText (f (.trigger name))))

/-- Reword the condition of ideal delivery. -/
def rewordIdeal (id : String) : Written → Written :=
  mapFields ["condition", "maxWaitTimeSeconds"] (onField "condition" (mapText (f (.ideal id))))

/-- Reword the conditions of a notification. -/
def rewordNotification (id : String) (w : Written) : Written :=
  (w.mapFields NotificationDraft.names
      (onField "scheduleCondition" (mapText (f (.schedule id))))).mapFields
    NotificationDraft.names (onField "idealDeliveryConditions" (rewordIdeal f id))

/-- Change the entries of the table that a section holds. -/
def mapSection (name : String) (g : String → Written → Written) : Written → Written :=
  mapFields [name] (onField name (mapFields [] g))

/-- Change a section of a configuration. -/
def onSection (name table : String) (g : String → Written → Written) : Written → Written :=
  mapFields ConfigDraft.names (onField name (mapSection table g))

/-- Reword the conditions of a configuration. -/
def reword (w : Written) : Written :=
  ((((w.onSection "actions" "namedActions" (rewordAction f)).onSection
    "triggers" "namedTriggers" (rewordTrigger f)).onSection
    "conditions" "namedConditions" fun name => mapText (f (.named name))).mapFields
      ConfigDraft.names (onField "notifications" (mapFields [] (rewordNotification f))))

end Json.Written

open Json Json.Written

/-! ## Reading -/

section Reading

variable {f : Place → String → String}

theorem ForkDraft.read?_rewordFork (hf : ∀ p, f p "" = "") (action : String) (w : Written) :
    ForkDraft.read? (w.rewordFork f action) =
      (ForkDraft.read? w).map (ForkDraft.reword f action) := by
  refine bind_of_map (record?_mapFields _ _ 0 w) fun fields => ?_
  refine bind_of_map (field_onField (text?_mapText _) (hf _)) fun condition => ?_
  refine bind_of_eq (field_onField_of_ne (by decide) _ _) fun passed => ?_
  refine bind_of_eq (optional_onField_of_ne (by decide) _) fun failed => ?_
  rfl

theorem TriggerDraft.read?_rewordTrigger (name : String) (w : Written) :
    TriggerDraft.read? (w.rewordTrigger f name) =
      (TriggerDraft.read? w).map (TriggerDraft.reword f name) := by
  refine bind_of_map (record?_mapFields _ _ 0 w) fun fields => ?_
  refine bind_of_eq (field_onField_of_ne (by decide) _ _) fun event => ?_
  refine bind_of_eq (field_onField_of_ne (by decide) _ _) fun action => ?_
  refine bind_of_map (optional_onField (text?_mapText _) fun _ => mapText_eq_null_iff)
    fun guard => ?_
  rfl

theorem IdealDeliveryDraft.read?_rewordIdeal (id : String) (w : Written) :
    IdealDeliveryDraft.read? (w.rewordIdeal f id) =
      (IdealDeliveryDraft.read? w).map (IdealDeliveryDraft.reword f id) := by
  refine bind_of_map (record?_mapFields _ _ 0 w) fun fields => ?_
  refine bind_of_map (optional_onField (text?_mapText _) fun _ => mapText_eq_null_iff)
    fun condition => ?_
  refine bind_of_eq (field_onField_of_ne (by decide) _ _) fun maxWait => ?_
  rfl

theorem NotificationDraft.read?_rewordNotification (id : String) (w : Written) :
    NotificationDraft.read? (w.rewordNotification f id) =
      (NotificationDraft.read? w).map (NotificationDraft.reword f id) := by
  have hrecord : (w.rewordNotification f id).record? names names.length =
      (w.record? names names.length).map fun fields =>
        NameMap.map (onField "idealDeliveryConditions" (rewordIdeal f id))
          (NameMap.map (onField "scheduleCondition" (mapText (f (.schedule id)))) fields) := by
    rw [rewordNotification, record?_mapFields, record?_mapFields, Option.map_map]
    rfl
  refine bind_of_map hrecord fun fields => ?_
  have hsame {α : Type} (other : String) (default : α) (read : Written → Option α)
      (hne : other ≠ "idealDeliveryConditions" ∧ other ≠ "scheduleCondition") :
      field (NameMap.map (onField "idealDeliveryConditions" (rewordIdeal f id))
        (NameMap.map (onField "scheduleCondition" (mapText (f (.schedule id)))) fields))
          other default read = field fields other default read :=
    (field_onField_of_ne hne.1 _ _).trans (field_onField_of_ne hne.2 _ _)
  repeat refine bind_of_eq (hsame _ _ _ (by decide)) fun _ => ?_
  refine bind_of_map ((optional_onField_of_ne (by decide) _).trans
    (optional_onField (text?_mapText _) fun _ => mapText_eq_null_iff)) fun schedule => ?_
  repeat refine bind_of_eq (hsame _ _ _ (by decide)) fun _ => ?_
  refine bind_of_map (m := Option.map (IdealDeliveryDraft.reword f id)) ?_ fun ideal => ?_
  · rw [optional_onField (IdealDeliveryDraft.read?_rewordIdeal id) fun _ =>
      mapFields_eq_null_iff _, optional_onField_of_ne (by decide)]
  refine bind_of_eq (hsame _ _ _ (by decide)) fun cancelationEvents => ?_
  rfl

theorem Json.value?_rewordFork (name : String) (depth : Nat) (w : Written) :
    value? depth (w.rewordFork f name) = (value? depth w).map (Json.rewordPayload f name) := by
  refine value?_mapFields (fun depth field w => ?_) _ depth w
  by_cases hfield : field = "condition"
  · rw [hfield, onField_self, onField_self]
    exact value?_mapText _ depth w
  · rw [onField_of_ne hfield, onField_of_ne hfield, Option.map_id]
    rfl

theorem Json.ofValue_rewordPayload (name : String) (json : Json) :
    ofValue (json.rewordPayload f name) = (ofValue json).rewordFork f name := by
  refine ofValue_mapFields (fun field json => ?_) _ json
  by_cases hfield : field = "condition"
  · rw [hfield, onField_self, onField_self]
    exact ofValue_mapText _ json
  · rw [onField_of_ne hfield, onField_of_ne hfield]
    rfl

theorem ActionDraft.read?_rewordAction (depth : Nat) (name : String) (w : Written) :
    ActionDraft.read? depth (w.rewordAction f name) =
      (ActionDraft.read? depth w).map (ActionDraft.reword f name) := by
  have hdata (found : Written) :
      value? depth ((if w.isFork then rewordFork f name else id) found) =
        (value? depth found).map (if w.isFork then Json.rewordPayload f name else id) := by
    cases w.isFork with
    | false => exact (congrFun Option.map_id _).symm
    | true => exact value?_rewordFork name depth found
  rw [ActionDraft.read?, ActionDraft.read?, rewordAction, record?_mapFields, record?_mapFields]
  cases hfields : w.record? ["actionType", "condition", "actionData"] 0 with
  | none => rfl
  | some fields =>
      simp only [Option.map_some, Option.bind_eq_bind, Option.bind_some]
      rw [field_onField (g := if w.isFork then Json.rewordPayload f name else id) hdata
        (by split <;> rfl)]
      simp (disch := decide) only [optional_onField_of_ne, field_onField_of_ne]
      rw [optional_onField (text?_mapText _) fun _ => mapText_eq_null_iff]
      cases hkind : field fields "actionType" "" text? with
      | none => rfl
      | some kind =>
          have hfork : w.isFork = decide (kind = "conditional_action") := by
            simp [isFork, hfields, hkind]
          simp only [Option.map_bind, Option.bind_map, Option.bind_some, Function.comp_def,
            Option.map_some, reword, hfork]
          by_cases hname : kind = "conditional_action"
          · simp [hname]
          · simp [hname]

namespace ConfigDraft

/-- Changing the table of a section changes the table that is read. -/
theorem section?_mapSection {α : Type} {read : Written → Option α}
    {g : String → Written → Written} {k : String → α → α}
    (hread : ∀ name w, read (g name w) = (read w).map (k name)) (name : String) (w : Written) :
    ConfigDraft.section? name read (w.mapSection name g) =
      (ConfigDraft.section? name read w).map (NameMap.map k) := by
  rw [section?, section?, mapSection, record?_mapFields]
  cases w.record? [name] 0 with
  | none => rfl
  | some fields => exact field_onField (table?_mapFields g hread) rfl

theorem getD_map {α : Type} (k : String → α → α) (table : Option (List (String × α))) :
    (table.map (NameMap.map k)).getD [] = NameMap.map k (table.getD []) := by
  cases table <;> rfl

/-- The fields of a configuration that was reworded. -/
def rewordFields (f : Place → String → String) (fields : List (String × Written)) :
    List (String × Written) :=
  NameMap.map (onField "notifications" (mapFields [] (rewordNotification f)))
    (NameMap.map (onField "conditions"
        (mapSection "namedConditions" fun name => mapText (f (.named name))))
      (NameMap.map (onField "triggers" (mapSection "namedTriggers" (rewordTrigger f)))
        (NameMap.map (onField "actions" (mapSection "namedActions" (rewordAction f))) fields)))

/-- Rewording a document rewords what is read. -/
theorem read?_reword (w : Written) : read? (w.reword f) = (read? w).map (reword f) := by
  have hrecord : (w.reword f).record? names 0 = (w.record? names 0).map (rewordFields f) := by
    rw [Written.reword, onSection, onSection, onSection, record?_mapFields, record?_mapFields,
      record?_mapFields, record?_mapFields, Option.map_map, Option.map_map, Option.map_map]
    rfl
  refine bind_of_map hrecord fun fields => ?_
  have hsame {α : Type} (other : String) (default : α) (read : Written → Option α)
      (hne : (other ≠ "notifications" ∧ other ≠ "conditions") ∧
        other ≠ "triggers" ∧ other ≠ "actions") :
      field (rewordFields f fields) other default read = field fields other default read := by
    rw [rewordFields, field_onField_of_ne hne.1.1, field_onField_of_ne hne.1.2,
      field_onField_of_ne hne.2.1, field_onField_of_ne hne.2.2]
  repeat refine bind_of_eq (hsame _ _ _ (by decide)) fun _ => ?_
  refine bind_of_map (m := Option.map (NameMap.map (ActionDraft.reword f))) ?_ fun actions => ?_
  · rw [rewordFields, optional_onField_of_ne (by decide), optional_onField_of_ne (by decide),
      optional_onField_of_ne (by decide)]
    exact optional_onField (section?_mapSection (ActionDraft.read?_rewordAction _) _)
      fun _ => mapFields_eq_null_iff _
  refine bind_of_map (m := Option.map (NameMap.map (TriggerDraft.reword f))) ?_ fun triggers => ?_
  · rw [rewordFields, optional_onField_of_ne (by decide), optional_onField_of_ne (by decide),
      optional_onField (section?_mapSection TriggerDraft.read?_rewordTrigger _)
        fun _ => mapFields_eq_null_iff _, optional_onField_of_ne (by decide)]
  refine bind_of_map (m := Option.map (NameMap.map fun name => f (.named name))) ?_
    fun conditions => ?_
  · rw [rewordFields, optional_onField_of_ne (by decide),
      optional_onField (section?_mapSection (fun name => text?_mapText (f (.named name))) _)
        fun _ => mapFields_eq_null_iff _, optional_onField_of_ne (by decide),
      optional_onField_of_ne (by decide)]
  refine bind_of_map (m := Option.map (NameMap.map (NotificationDraft.reword f))) ?_
    fun notifications => ?_
  · rw [rewordFields,
      optional_onField (table?_mapFields _ NotificationDraft.read?_rewordNotification)
        fun _ => mapFields_eq_null_iff _, optional_onField_of_ne (by decide),
      optional_onField_of_ne (by decide), optional_onField_of_ne (by decide)]
  simp only [getD_map]
  rfl

end ConfigDraft

end Reading

/-! ## Rewording again -/

namespace Json.Written

variable {f g : Place → String → String} {w : Written}

theorem isFork_rewordAction (name : String) : (w.rewordAction f name).isFork = w.isFork := by
  rw [isFork, isFork, rewordAction, record?_mapFields, record?_mapFields]
  cases w.record? ["actionType", "condition", "actionData"] 0 with
  | none => rfl
  | some fields =>
      simp (disch := decide) only [Option.map_some, Option.bind_some, field_onField_of_ne]

theorem rewordFork_comp (action : String) :
    rewordFork g action ∘ rewordFork f action = rewordFork (fun p => g p ∘ f p) action := by
  funext w
  rw [Function.comp_apply, rewordFork, rewordFork, rewordFork, mapFields_onField, mapText_comp]

theorem rewordAction_rewordAction (name : String) :
    (w.rewordAction f name).rewordAction g name = w.rewordAction (fun p => g p ∘ f p) name := by
  rw [rewordAction, isFork_rewordAction, rewordAction, rewordAction,
    mapFields_onField_comm (by decide : "actionData" ≠ "condition"), mapFields_onField,
    mapFields_onField, mapText_comp]
  cases w.isFork with
  | false => rfl
  | true => simp only [if_true, rewordFork_comp]

theorem rewordTrigger_rewordTrigger (name : String) :
    (w.rewordTrigger f name).rewordTrigger g name = w.rewordTrigger (fun p => g p ∘ f p) name := by
  rw [rewordTrigger, rewordTrigger, rewordTrigger, mapFields_onField, mapText_comp]

theorem rewordIdeal_comp (id : String) :
    rewordIdeal g id ∘ rewordIdeal f id = rewordIdeal (fun p => g p ∘ f p) id := by
  funext w
  rw [Function.comp_apply, rewordIdeal, rewordIdeal, rewordIdeal, mapFields_onField, mapText_comp]

theorem rewordNotification_rewordNotification (id : String) :
    (w.rewordNotification f id).rewordNotification g id =
      w.rewordNotification (fun p => g p ∘ f p) id := by
  rw [rewordNotification, rewordNotification, rewordNotification,
    mapFields_onField_comm (by decide : "idealDeliveryConditions" ≠ "scheduleCondition"),
    mapFields_onField, mapFields_onField, mapText_comp, rewordIdeal_comp]

theorem mapSection_comp (table : String) (h k : String → Written → Written) :
    mapSection table k ∘ mapSection table h =
      mapSection table fun name found => k name (h name found) := by
  have hentries : mapFields [] k ∘ mapFields [] h =
      mapFields [] fun name found => k name (h name found) :=
    funext fun _ => mapFields_mapFields
  funext w
  rw [Function.comp_apply, mapSection, mapSection, mapSection, mapFields_onField, hentries]

/-- Rewording twice is rewording once. -/
theorem reword_reword : (w.reword f).reword g = w.reword fun p => g p ∘ f p := by
  simp only [reword, onSection]
  -- The second change of each section moves inward until it meets the first one.
  rw [mapFields_onField_comm (by decide : "notifications" ≠ "actions"),
    mapFields_onField_comm (by decide : "conditions" ≠ "actions"),
    mapFields_onField_comm (by decide : "triggers" ≠ "actions"), mapFields_onField,
    mapFields_onField_comm (by decide : "notifications" ≠ "triggers"),
    mapFields_onField_comm (by decide : "conditions" ≠ "triggers"), mapFields_onField,
    mapFields_onField_comm (by decide : "notifications" ≠ "conditions"), mapFields_onField,
    mapFields_onField, mapSection_comp, mapSection_comp, mapSection_comp]
  have hentries : mapFields [] (rewordNotification g) ∘ mapFields [] (rewordNotification f) =
      mapFields [] (rewordNotification fun p => g p ∘ f p) := by
    funext w
    simp only [Function.comp_apply, mapFields_mapFields, rewordNotification_rewordNotification]
  have hsources (name : String) (w : Written) :
      (w.mapText (f (.named name))).mapText (g (.named name)) =
        w.mapText (g (.named name) ∘ f (.named name)) :=
    congrFun (mapText_comp _ _) w
  simp only [rewordAction_rewordAction, rewordTrigger_rewordTrigger, hsources, hentries]

end Json.Written

end Targeting
