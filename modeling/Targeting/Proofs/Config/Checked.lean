/-
# What the check of a configuration ensures

A configuration that is accepted holds exactly what was written: each of its tables has
the entries of the draft, in order, and each entry has passed its own check. So its
conditions stand where the draft has their sources, and each of them was prepared from
its source. How a condition that was prepared relates to its source depends on the
mode. Strict validation accepts sources that compile. Lenient validation accepts every
source, and degrades the condition if the source does not compile.
-/

import Mathlib.Data.List.Forall2
import Targeting.Config.Basic
import Targeting.Proofs.Condition.Acceptance
import Targeting.Proofs.Notification.Checked

namespace Targeting

open Condition (Engine Environment Mode compile exists_of_bind_eq_ok)
open Json (Written)

/-! ## Prepared conditions -/

namespace Condition

/-- A condition is what a source becomes when it is prepared. -/
def Prepared (engine : Engine) (source : String) (c : Condition) : Prop :=
  (ofSource source).prepare engine = (.ok (), c)

/-- A condition that runs the program of its source, or else is false in every world
and keeps the reason. -/
structure Settles (c : Condition) (source : String) : Prop where
  degraded_iff : c.degraded.isSome ↔ ∃ err, compile source = .error err
  source_of_degraded : c.degraded.isSome → c.source = ""
  false_of_degraded : c.degraded.isSome →
    ∀ {σ : Type} (env : Environment σ) (s : σ), c.evaluate env s = (.ok false, s)
  source_of_not_degraded : c.degraded = none → c.source = source

theorem prepare_ofSource (engine : Engine) (source : String) :
    (ofSource source).prepare engine =
      match engine.compile source with
      | .ok program => (.ok (), (ofSource source).withProgram program)
      | .error err =>
        match engine.mode with
        | .strict => (.error err, ofSource source)
        | .lenient => (.ok (), ofReason err) := rfl

/-- Strict validation compiles the source and leaves the condition as it is written. -/
theorem Prepared.of_strict {names : List String} {source : String} {c : Condition}
    (h : Prepared ⟨.strict, names⟩ source c) :
    ∃ program, Engine.compile ⟨.strict, names⟩ source = .ok program ∧
      c = (ofSource source).withProgram program := by
  rw [Prepared, prepare_ofSource] at h
  cases hcompile : Engine.compile ⟨.strict, names⟩ source with
  | error err => simp [hcompile] at h
  | ok program =>
      rw [hcompile] at h
      exact ⟨program, rfl, (Prod.mk.inj h).2.symm⟩

/-- The condition that lenient validation makes of a source. -/
def Engine.settled (engine : Engine) (source : String) : Condition :=
  ((ofSource source).prepare engine).2

/-- Lenient validation accepts every source. -/
theorem prepare_of_lenient {engine : Engine} (h : engine.mode = .lenient) (source : String) :
    (ofSource source).prepare engine = (.ok (), engine.settled source) := by
  rw [Engine.settled, prepare_ofSource, h]
  cases engine.compile source <;> rfl

theorem Prepared.settles {engine : Engine} (hmode : engine.mode = .lenient) {source : String}
    {c : Condition} (h : Prepared engine source c) : c.Settles source := by
  rw [Prepared, prepare_ofSource, Engine.compile_of_lenient hmode, hmode] at h
  cases hcompile : Condition.compile source with
  | ok program =>
      rw [hcompile] at h
      obtain rfl := (Prod.mk.inj h).2
      exact {
        degraded_iff := by simp [withProgram, ofSource, hcompile]
        source_of_degraded := fun hdegraded => by simp [withProgram, ofSource] at hdegraded
        false_of_degraded := fun hdegraded => by simp [withProgram, ofSource] at hdegraded
        source_of_not_degraded := fun _ => rfl }
  | error err =>
      rw [hcompile] at h
      obtain rfl := (Prod.mk.inj h).2
      exact {
        degraded_iff := by simp [ofReason, hcompile]
        source_of_degraded := fun _ => rfl
        false_of_degraded := fun _ _ _ _ => rfl
        source_of_not_degraded := fun hdegraded => by simp [ofReason] at hdegraded }

end Condition

/-! ## Places -/

/-- Where a configuration has a condition. -/
inductive Place where
  | named (name : String)
  | guard (action : String)
  | fork (action : String)
  | trigger (name : String)
  | schedule (notification : String)
  | ideal (notification : String)
  deriving DecidableEq, Repr

/-- What stands at a place, if anything does. -/
def Place.holding {α : Type} (p : Place) (found : Option α) : List (Place × α) :=
  found.toList.map (p, ·)

@[simp]
theorem Place.map_snd_holding {α : Type} (p : Place) (found : Option α) :
    (p.holding found).map Prod.snd = found.toList := by
  cases found <;> rfl

/-- Sources of the conditions of an action: its guard, unless that is empty, and the condition of
a fork. -/
def ActionDraft.sources (name : String) (draft : ActionDraft) : List (Place × String) :=
  (Place.guard name).holding (nonEmpty draft.guard) ++
    if draft.kind = "conditional_action" then
      (Place.fork name).holding
        ((ForkDraft.read? (Written.ofValue draft.data)).map ForkDraft.condition)
    else []

/-- Source of the guard of a trigger, unless that is empty. -/
def TriggerDraft.sources (name : String) (draft : TriggerDraft) : List (Place × String) :=
  (Place.trigger name).holding (nonEmpty draft.guard)

/-- Sources of the conditions of a notification, unless they are empty. -/
def NotificationDraft.sources (id : String) (draft : NotificationDraft) : List (Place × String) :=
  (Place.schedule id).holding (nonEmpty draft.scheduleCondition) ++
    (Place.ideal id).holding (draft.ideal.bind fun ideal => nonEmpty ideal.condition)

/-- Sources of all conditions of a configuration, each with its place. -/
def ConfigDraft.sources (draft : ConfigDraft) : List (Place × String) :=
  draft.conditions.map (fun (name, source) => (Place.named name, source)) ++
    draft.actions.flatMap (fun (name, action) => action.sources name) ++
    draft.triggers.flatMap (fun (name, trigger) => trigger.sources name) ++
    draft.notifications.flatMap (fun (id, notification) => notification.sources id)

/-- The conditions of an action with their places. -/
def GuardedAction.placed (name : String) (a : GuardedAction) : List (Place × Condition) :=
  (Place.guard name).holding a.guard ++
    match a.action with
    | .fork f => (Place.fork name).holding (some f.condition)
    | _ => []

/-- The guard of a trigger with its place. -/
def Trigger.placed (name : String) (t : Trigger) : List (Place × Condition) :=
  (Place.trigger name).holding t.guard

/-- The conditions of a notification with their places. -/
def Notification.placed (id : String) (n : Notification) : List (Place × Condition) :=
  (Place.schedule id).holding n.scheduleCondition ++
    (Place.ideal id).holding (n.ideal.map IdealDelivery.condition)

/-- All conditions of a configuration, each with its place. -/
def Config.placed (c : Config) : List (Place × Condition) :=
  c.conditions.map (fun (name, condition) => (Place.named name, condition)) ++
    c.actions.flatMap (fun (name, action) => action.placed name) ++
    c.triggers.flatMap (fun (name, trigger) => trigger.placed name) ++
    c.notifications.flatMap (fun (id, notification) => notification.placed id)

/-- A condition stands where its source stood, and was prepared from it. -/
def Place.Prepares (engine : Engine) (source : Place × String) (condition : Place × Condition) :
    Prop :=
  source.1 = condition.1 ∧ Condition.Prepared engine source.2 condition.2

theorem Config.allConditions_eq (c : Config) : c.allConditions = c.placed.map Prod.snd := by
  have haction (name : String) (a : GuardedAction) :
      (a.placed name).map Prod.snd = a.conditions := by
    rw [GuardedAction.placed, GuardedAction.conditions]
    cases a.action <;> simp
  have htrigger (name : String) (t : Trigger) :
      (t.placed name).map Prod.snd = t.guard.toList := by
    simp [Trigger.placed]
  have hnotification (id : String) (n : Notification) :
      (n.placed id).map Prod.snd = n.conditions := by
    simp [Notification.placed, Notification.conditions]
  simp only [placed, allConditions, List.map_append, List.map_map, List.map_flatMap, haction,
    htrigger, hnotification]
  rfl

/-! ## The checks of the parts -/

section Parts

variable {engine : Engine}

/-- A condition that may be missing stands where its source stood. -/
theorem Place.prepares_holding (p : Place) {source : Option String} {c : Option Condition}
    (h : Option.Rel (Condition.Prepared engine) source c) :
    List.Forall₂ (Place.Prepares engine) (p.holding source) (p.holding c) := by
  cases h with
  | none => exact .nil
  | some hprepared => exact .cons ⟨rfl, hprepared⟩ .nil

/-- A guard that is not empty is prepared. -/
theorem prepareGuard_eq_ok_iff {source : Option String} {guard : Option Condition} :
    prepareGuard engine source = .ok guard ↔
      Option.Rel (Condition.Prepared engine) (nonEmpty source) guard := by
  rw [prepareGuard, nonEmpty]
  cases source.filter (· ≠ "") with
  | none =>
      constructor
      · rintro ⟨⟩
        exact .none
      · rintro ⟨⟩
        rfl
  | some text =>
      constructor
      · intro h
        rcases hprepare : (Condition.ofSource text).prepare engine with ⟨err | _, c⟩
        · simp [hprepare] at h
        · simp only [hprepare, Except.ok.injEq] at h
          exact h ▸ .some hprepare
      · rintro (hprepared | _)
        dsimp only
        rw [hprepared]

/-- A fork with a condition and an action for it takes over what is written. -/
theorem fork_eq_ok_iff {draft : ForkDraft} {fork : Fork} :
    Fork.ofDraft engine draft = .ok fork ↔
      draft.condition ≠ "" ∧ draft.passed ≠ "" ∧
        ∃ c, Condition.Prepared engine draft.condition c ∧
          fork = ⟨c, draft.passed, draft.failed.filter (· ≠ "")⟩ := by
  rw [Fork.ofDraft]
  by_cases hcondition : draft.condition = ""
  · simp [hcondition]
  · by_cases hpassed : draft.passed = ""
    · rcases (Condition.ofSource draft.condition).prepare engine with ⟨err | _, c⟩ <;>
        simp [hcondition, hpassed]
    · constructor
      · intro h
        rcases hprepare : (Condition.ofSource draft.condition).prepare engine with ⟨err | _, c⟩
        · simp [hprepare, hcondition] at h
        · simp only [hprepare, hcondition, hpassed, if_false, Except.ok.injEq] at h
          exact ⟨hcondition, hpassed, c, hprepare, h.symm⟩
      · rintro ⟨-, -, c, hprepared, rfl⟩
        rw [if_neg hcondition, hprepared]
        exact if_neg hpassed

theorem forall₂_of_action (name : String) {draft : ActionDraft} {a : GuardedAction}
    (h : GuardedAction.ofDraft engine draft = .ok a) :
    List.Forall₂ (Place.Prepares engine) (draft.sources name) (a.placed name) := by
  rw [GuardedAction.ofDraft] at h
  cases haction : Action.ofDraft engine draft with
  | error issue => simp [haction] at h
  | ok action =>
      cases hguard : prepareGuard engine draft.guard with
      | error issue => simp [haction, hguard] at h
      | ok guard =>
          simp only [haction, hguard, Except.ok.injEq] at h
          subst h
          rw [ActionDraft.sources, GuardedAction.placed]
          apply List.rel_append
          · exact (Place.guard name).prepares_holding (prepareGuard_eq_ok_iff.1 hguard)
          · unfold Action.ofDraft at haction
            split at haction
            case h_7 hkind =>
                cases hfork : ForkDraft.read? (Written.ofValue draft.data) with
                | none => simp [hfork] at haction
                | some forkDraft =>
                    cases hchecked : Fork.ofDraft engine forkDraft with
                    | error issue => simp [hfork, hchecked, Except.map] at haction
                    | ok fork =>
                        simp only [hfork, hchecked, Except.map, Except.ok.injEq] at haction
                        subst haction
                        obtain ⟨-, -, c, hprepared, rfl⟩ := fork_eq_ok_iff.1 hchecked
                        rw [if_pos hkind]
                        exact (Place.fork name).prepares_holding (.some hprepared)
            case h_8 hkind =>
                rw [if_neg hkind]
                split at haction <;> cases haction
                exact .nil
            case h_1 => cases haction
            all_goals
              rename_i hkind
              rw [if_neg (by simp [hkind])]
              cases haction
              exact .nil

theorem forall₂_of_trigger (name : String) {draft : TriggerDraft} {t : Trigger}
    (h : Trigger.ofDraft engine draft = .ok t) :
    List.Forall₂ (Place.Prepares engine) (draft.sources name) (t.placed name) := by
  rw [Trigger.ofDraft] at h
  split at h
  · cases h
  · split at h
    · cases h
    · cases hguard : prepareGuard engine draft.guard with
      | error issue => simp [hguard] at h
      | ok guard =>
          simp only [hguard, Except.ok.injEq] at h
          subst h
          exact (Place.trigger name).prepares_holding (prepareGuard_eq_ok_iff.1 hguard)

theorem checkCondition_eq_ok_iff {issue : NotificationIssue} {source : String} {c : Condition} :
    Notification.checkCondition engine issue source = .ok c ↔
      Condition.Prepared engine source c := by
  rw [Notification.checkCondition, Condition.Prepared]
  rcases (Condition.ofSource source).prepare engine with ⟨err | _, c'⟩ <;> simp

/-- A condition for scheduling that is not empty is prepared. -/
theorem checkSchedule_eq_ok_iff {id : String} {source : Option String} {c : Option Condition} :
    Notification.checkSchedule engine id source = .ok c ↔
      Option.Rel (Condition.Prepared engine) (nonEmpty source) c := by
  rw [Notification.checkSchedule]
  cases nonEmpty source with
  | none =>
      constructor
      · rintro ⟨⟩
        exact .none
      · rintro ⟨⟩
        rfl
  | some text =>
      constructor
      · intro h
        cases hcondition : Notification.checkCondition engine (.condition id) text with
        | error issue => simp [hcondition, Except.map] at h
        | ok condition =>
            simp only [hcondition, Except.map, Except.ok.injEq] at h
            exact h ▸ .some (checkCondition_eq_ok_iff.1 hcondition)
      · rintro (hprepared | _)
        dsimp only
        rw [checkCondition_eq_ok_iff.2 hprepared]
        rfl

theorem prepared_of_checkIdeal {id : String} {draft : IdealDeliveryDraft} {ideal : IdealDelivery}
    (h : Notification.checkIdeal engine id draft = .ok ideal) :
    ∃ source, nonEmpty draft.condition = some source ∧
      Condition.Prepared engine source ideal.condition := by
  unfold Notification.checkIdeal at h
  cases hsource : nonEmpty draft.condition with
  | none =>
      rw [hsource] at h
      cases h
  | some source =>
      rw [hsource] at h
      obtain ⟨source', hpure, hnext⟩ := exists_of_bind_eq_ok h
      obtain ⟨condition, hcondition, hrest⟩ := exists_of_bind_eq_ok hnext
      obtain rfl : source = source' := Except.ok.inj hpure
      refine ⟨source, rfl, ?_⟩
      dsimp only at hrest
      split at hrest
      · cases hrest
        exact checkCondition_eq_ok_iff.1 hcondition
      · split at hrest <;> cases hrest
        exact checkCondition_eq_ok_iff.1 hcondition

theorem rel_of_checkIdeal? {id : String} {draft : Option IdealDeliveryDraft}
    {ideal : Option IdealDelivery} (h : Notification.checkIdeal? engine id draft = .ok ideal) :
    Option.Rel (Condition.Prepared engine) (draft.bind fun ideal => nonEmpty ideal.condition)
      (ideal.map IdealDelivery.condition) := by
  cases draft with
  | none =>
      cases h
      exact .none
  | some draft =>
      cases hcheck : Notification.checkIdeal engine id draft with
      | error issue => simp [Notification.checkIdeal?, hcheck, Except.map] at h
      | ok checked =>
          simp only [Notification.checkIdeal?, hcheck, Except.map, Except.ok.injEq] at h
          obtain ⟨source, hsource, hprepared⟩ := prepared_of_checkIdeal hcheck
          rw [← h, Option.bind_some, hsource]
          exact .some hprepared

theorem forall₂_of_notification {id : String} {draft : NotificationDraft} {n : Notification}
    (h : Notification.ofDraft engine id draft = .ok n) :
    List.Forall₂ (Place.Prepares engine) (draft.sources id) (n.placed id) := by
  have hpasses := Notification.passes_of_ofDraft h
  exact List.rel_append
    ((Place.schedule id).prepares_holding (checkSchedule_eq_ok_iff.1 hpasses.schedule))
    ((Place.ideal id).prepares_holding (rel_of_checkIdeal? hpasses.ideal))

end Parts

/-! ## Tables -/

namespace Config

variable {engine : Engine}

/-- A table without issues has the entries of the draft, each checked. -/
theorem checkTable_eq_none_iff {α β : Type} {check : String → α → Except Issue β}
    {table : List (String × α)} {passed : List (String × β)} :
    checkTable check table = (passed, none) ↔
      List.Forall₂ (fun entry checked => entry.1 = checked.1 ∧
        check entry.1 entry.2 = .ok checked.2) table passed := by
  induction table generalizing passed with
  | nil => simp [checkTable, eq_comm]
  | cons entry rest ih =>
      obtain ⟨name, draft⟩ := entry
      rcases hrest : checkTable check rest with ⟨others, issue⟩
      rw [hrest] at ih
      rw [List.forall₂_cons_left_iff]
      cases hcheck : check name draft with
      | error first =>
          simp only [checkTable, hrest, hcheck, Prod.mk.injEq, reduceCtorEq, and_false, false_iff]
          rintro ⟨checked, passed', ⟨-, ⟨⟩⟩, -, -⟩
      | ok checked =>
          simp only [checkTable, hrest, hcheck, Prod.mk.injEq]
          constructor
          · rintro ⟨rfl, rfl⟩
            exact ⟨_, others, ⟨rfl, rfl⟩, ih.1 rfl, rfl⟩
          · rintro ⟨⟨name', checked'⟩, passed', ⟨rfl, hok⟩, hothers, rfl⟩
            obtain ⟨rfl, hissue⟩ := Prod.mk.inj (ih.2 hothers)
            cases hok
            exact ⟨rfl, hissue⟩

/-- The tables of a configuration that is accepted. -/
structure Tables (engine : Engine) (draft : ConfigDraft) (c : Config) : Prop where
  actions : checkTable (checkAction engine) draft.actions = (c.actions, none)
  triggers : checkTable (checkTrigger engine) draft.triggers = (c.triggers, none)
  conditions : checkTable (checkCondition engine) draft.conditions = (c.conditions, none)
  notifications :
    checkTable (checkNotification engine) draft.notifications = (c.notifications, none)

/-- A configuration that is accepted. Its references were checked against the names of the actions
that are written. -/
structure Accepted (engine : Engine) (draft : ConfigDraft) (c : Config) : Prop
    extends Tables engine draft c where
  themes : c.themes = draft.themes
  triggerTargets : danglingTrigger (draft.actions.map Prod.fst) draft.triggers = none
  actionTargets : danglingAction (draft.actions.map Prod.fst) c.actions = none
  tapTargets : danglingTap (draft.actions.map Prod.fst) c.notifications = none
  named : ¬ (hasEmptyName draft.actions ∨ hasEmptyName draft.themes ∨ hasEmptyName draft.triggers)

theorem refuse_eq_ok {issue : Option Issue} {answer : Unit} (h : refuse issue = .ok answer) :
    issue = none := by
  cases issue with
  | none => rfl
  | some issue => cases h

theorem accepted_of_ofDraft {draft : ConfigDraft} {c : Config}
    (h : ofDraft engine draft = .ok c) : Accepted engine draft c := by
  unfold ofDraft at h
  obtain ⟨-, h⟩ := guard_eq_ok h
  obtain ⟨-, h⟩ := guard_eq_ok h
  obtain ⟨_, -, h⟩ := exists_of_bind_eq_ok h
  obtain ⟨_, -, h⟩ := exists_of_bind_eq_ok h
  obtain ⟨_, -, h⟩ := exists_of_bind_eq_ok h
  rcases hactions : checkTable (checkAction engine) draft.actions with ⟨actions, actionIssue⟩
  rcases htriggers : checkTable (checkTrigger engine) draft.triggers with ⟨triggers, triggerIssue⟩
  rcases hconditions : checkTable (checkCondition engine) draft.conditions with
    ⟨conditions, conditionIssue⟩
  rcases hnotifications : checkTable (checkNotification engine) draft.notifications with
    ⟨notifications, notificationIssue⟩
  simp only [hactions, htriggers, hconditions, hnotifications] at h
  obtain ⟨_, htriggerTargets, h⟩ := exists_of_bind_eq_ok h
  obtain ⟨_, hactionTargets, h⟩ := exists_of_bind_eq_ok h
  obtain ⟨_, htapTargets, h⟩ := exists_of_bind_eq_ok h
  obtain ⟨hnamed, h⟩ := guard_eq_ok h
  obtain ⟨_, hissue, h⟩ := exists_of_bind_eq_ok h
  cases h
  cases actionIssue <;> cases triggerIssue <;> cases conditionIssue <;> cases notificationIssue <;>
    cases hissue
  exact {
    actions := hactions
    triggers := htriggers
    conditions := hconditions
    notifications := hnotifications
    themes := rfl
    triggerTargets := refuse_eq_ok htriggerTargets
    actionTargets := refuse_eq_ok hactionTargets
    tapTargets := refuse_eq_ok htapTargets
    named := hnamed }

theorem tables_of_ofDraft {draft : ConfigDraft} {c : Config} (h : ofDraft engine draft = .ok c) :
    Tables engine draft c :=
  (accepted_of_ofDraft h).toTables

/-! The checks by name are those of the parts, with the name added to what is wrong. -/

theorem checkAction_eq_mapError (name : String) (draft : ActionDraft) :
    checkAction engine name draft =
      (GuardedAction.ofDraft engine draft).mapError (Issue.action name) := by
  rw [checkAction]
  cases GuardedAction.ofDraft engine draft <;> rfl

theorem checkTrigger_eq_mapError (name : String) (draft : TriggerDraft) :
    checkTrigger engine name draft =
      (Trigger.ofDraft engine draft).mapError (Issue.trigger name) := by
  rw [checkTrigger]
  cases Trigger.ofDraft engine draft <;> rfl

theorem checkNotification_eq_mapError (id : String) (draft : NotificationDraft) :
    checkNotification engine id draft =
      (Notification.ofDraft engine id draft).mapError (Issue.notification id) := by
  rw [checkNotification]
  cases Notification.ofDraft engine id draft <;> rfl

theorem checkCondition_eq_ok_iff {name source : String} {c : Condition} :
    checkCondition engine name source = .ok c ↔ Condition.Prepared engine source c := by
  rw [checkCondition, Condition.Prepared]
  rcases (Condition.ofSource source).prepare engine with ⟨err | _, c'⟩ <;> simp

theorem mapError_eq_ok_iff {ε ε' α : Type} {x : Except ε α} {err : ε → ε'} {a : α} :
    x.mapError err = .ok a ↔ x = .ok a := by
  cases x <;> simp [Except.mapError]

/-- The conditions of a configuration that is accepted stand where their sources stood, and each
was prepared from its source. -/
theorem forall₂_placed_of_ofDraft {draft : ConfigDraft} {c : Config}
    (h : ofDraft engine draft = .ok c) :
    List.Forall₂ (Place.Prepares engine) draft.sources c.placed := by
  obtain ⟨hactions, htriggers, hconditions, hnotifications⟩ := tables_of_ofDraft h
  rw [ConfigDraft.sources, placed]
  refine List.rel_append (List.rel_append (List.rel_append ?_ ?_) ?_) ?_
  · refine List.rel_map ?_ (checkTable_eq_none_iff.1 hconditions)
    rintro ⟨name, source⟩ ⟨_, condition⟩ ⟨rfl, hcheck⟩
    exact ⟨rfl, checkCondition_eq_ok_iff.1 hcheck⟩
  · refine List.rel_flatMap (checkTable_eq_none_iff.1 hactions) ?_
    rintro ⟨name, action⟩ ⟨_, checked⟩ ⟨rfl, hcheck⟩
    rw [checkAction_eq_mapError, mapError_eq_ok_iff] at hcheck
    exact forall₂_of_action name hcheck
  · refine List.rel_flatMap (checkTable_eq_none_iff.1 htriggers) ?_
    rintro ⟨name, trigger⟩ ⟨_, checked⟩ ⟨rfl, hcheck⟩
    rw [checkTrigger_eq_mapError, mapError_eq_ok_iff] at hcheck
    exact forall₂_of_trigger name hcheck
  · refine List.rel_flatMap (checkTable_eq_none_iff.1 hnotifications) ?_
    rintro ⟨id, notification⟩ ⟨_, checked⟩ ⟨rfl, hcheck⟩
    rw [checkNotification_eq_mapError, mapError_eq_ok_iff] at hcheck
    exact forall₂_of_notification hcheck

theorem ofJson_eq_ok_iff {bytes : List UInt8} {c : Config} :
    ofJson engine bytes = .ok c ↔ ∃ draft,
      (Written.parse? bytes).bind ConfigDraft.read? = some draft ∧
        ofDraft engine draft = .ok c := by
  rw [ofJson]
  cases (Written.parse? bytes).bind ConfigDraft.read? with
  | none => simp
  | some draft => cases hdraft : ofDraft engine draft <;> simp [hdraft]

end Config

end Targeting
