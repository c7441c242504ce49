/-
# The texts of conditions do not decide about a configuration

Lenient validation accepts every text of a condition. So whether a configuration is
accepted, and what is wrong with it otherwise, does not depend on these texts, as long as
none of them is empty: a condition without text is a missing one. The configuration that
comes out depends on a text only where its condition stands.

Which conditions count is a set of places. Two documents are compared with the conditions
at these places hidden, and so are the two results. That hides a degraded condition as
well as a compiled one, so the places alone decide where the results may differ.
-/

import Mathlib
import Targeting.Proofs.Config.Rewording

namespace Targeting

open Json (Written)
open Condition (prepare_of_lenient)

/-! ## Results up to a map -/

/-- Both results are the same error, or values that a map does not tell apart. -/
inductive SameUpTo {ε α β : Type} (m : α → β) : Except ε α → Except ε α → Prop where
  | error (err : ε) : SameUpTo m (.error err) (.error err)
  | ok {a b : α} (h : m a = m b) : SameUpTo m (.ok a) (.ok b)

namespace SameUpTo

variable {ε ε' α β γ δ : Type} {m : α → β} {k : γ → δ}

theorem refl (x : Except ε α) : SameUpTo m x x := by
  cases x with
  | error err => exact .error err
  | ok a => exact .ok rfl

theorem symm {x y : Except ε α} (h : SameUpTo m x y) : SameUpTo m y x := by
  cases h with
  | error err => exact .error err
  | ok h => exact .ok h.symm

theorem trans {x y z : Except ε α} (hxy : SameUpTo m x y) (hyz : SameUpTo m y z) :
    SameUpTo m x z := by
  cases hxy with
  | error err => exact hyz
  | ok h =>
      cases hyz with
      | ok h' => exact .ok (h.trans h')

theorem map {x y : Except ε γ} {f g : γ → α} (h : SameUpTo k x y)
    (hfg : ∀ a b, k a = k b → m (f a) = m (g b)) : SameUpTo m (x.map f) (y.map g) := by
  cases h with
  | error err => exact .error err
  | ok h => exact .ok (hfg _ _ h)

theorem mapError {x y : Except ε α} (err : ε → ε') (h : SameUpTo m x y) :
    SameUpTo m (x.mapError err) (y.mapError err) := by
  cases h with
  | error e => exact .error (err e)
  | ok h => exact .ok h

theorem bind {x y : Except ε γ} {f g : γ → Except ε α} (h : SameUpTo k x y)
    (hnext : ∀ a b, k a = k b → SameUpTo m (f a) (g b)) : SameUpTo m (x >>= f) (y >>= g) := by
  cases h with
  | error err => exact .error err
  | ok h => exact hnext _ _ h

/-- A step that is the same. -/
theorem step (x : Except ε γ) {f g : γ → Except ε α} (hnext : ∀ a, SameUpTo m (f a) (g a)) :
    SameUpTo m (x >>= f) (x >>= g) := by
  cases x with
  | error err => exact .error err
  | ok a => exact hnext a

/-- Both results depend on the same test. -/
theorem ite {c c' : Prop} [Decidable c] [Decidable c'] (hc : c ↔ c') {x y x' y' : Except ε α}
    (hpos : SameUpTo m x y) (hneg : SameUpTo m x' y') :
    SameUpTo m (if c then x else x') (if c' then y else y') := by
  by_cases h : c
  · rw [if_pos h, if_pos (hc.1 h)]
    exact hpos
  · rw [if_neg h, if_neg fun h' => h (hc.2 h')]
    exact hneg

/-- A guard that is the same. -/
theorem guard {c c' : Prop} [Decidable c] [Decidable c'] (hc : c ↔ c') {err : ε}
    {f g : Unit → Except ε α} (hnext : SameUpTo m (f ()) (g ())) :
    SameUpTo m (if c then (throw err : Except ε Unit) >>= f else f ())
      (if c' then (throw err : Except ε Unit) >>= g else g ()) :=
  ite hc (step (throw err) fun _ => hnext) hnext

end SameUpTo

/-! ## Configurations -/

section Checked

variable (g : Place → Condition → Condition)

/-- Change the condition of a fork. -/
def Fork.mapConditions (action : String) (fork : Fork) : Fork :=
  { fork with condition := g (.fork action) fork.condition }

/-- Change the condition of an action, which only a fork has. -/
def Action.mapConditions (name : String) : Action → Action
  | .fork f => .fork (f.mapConditions g name)
  | other => other

/-- Change the conditions of an action with a guard. -/
def GuardedAction.mapConditions (name : String) (a : GuardedAction) : GuardedAction where
  guard := a.guard.map (g (.guard name))
  action := a.action.mapConditions g name

/-- Change the guard of a trigger. -/
def Trigger.mapConditions (name : String) (t : Trigger) : Trigger :=
  { t with guard := t.guard.map (g (.trigger name)) }

/-- Change the condition of ideal delivery. -/
def IdealDelivery.mapConditions (id : String) (ideal : IdealDelivery) : IdealDelivery :=
  { ideal with condition := g (.ideal id) ideal.condition }

/-- Change the conditions of a notification. -/
def Notification.mapConditions (id : String) (n : Notification) : Notification :=
  { n with
    scheduleCondition := n.scheduleCondition.map (g (.schedule id))
    ideal := n.ideal.map (IdealDelivery.mapConditions g id) }

/-- Change the conditions of a configuration. -/
def Config.mapConditions (c : Config) : Config :=
  { c with
    actions := NameMap.map (GuardedAction.mapConditions g) c.actions
    triggers := NameMap.map (Trigger.mapConditions g) c.triggers
    conditions := NameMap.map (fun name => g (.named name)) c.conditions
    notifications := NameMap.map (Notification.mapConditions g) c.notifications }

end Checked

/-! ## Hiding conditions -/

/-- What a source is where it is hidden; an empty one stays empty. -/
def Place.hideSource (hidden : Place → Bool) (p : Place) (source : String) : String :=
  if hidden p ∧ source ≠ "" then "hidden" else source

/-- What a condition is where it is hidden. -/
def Place.hide (hidden : Place → Bool) (p : Place) (c : Condition) : Condition :=
  if hidden p then .ofSource "" else c

/-- A document with the conditions at some places hidden. -/
def Json.Written.masked (hidden : Place → Bool) : Written → Written :=
  reword (Place.hideSource hidden)

/-- A configuration with the conditions at some places hidden. -/
def Config.masked (hidden : Place → Bool) : Config → Config :=
  mapConditions (Place.hide hidden)

section Hiding

variable {hidden : Place → Bool} {engine : Condition.Engine}

theorem Place.hideSource_eq_empty_iff {p : Place} {source : String} :
    hideSource hidden p source = "" ↔ source = "" := by
  rw [hideSource]
  split
  case isTrue h => simp [h.2]
  case isFalse => rfl

/-- Rewording conditions where they are hidden leaves what else a document says. -/
theorem Json.Written.masked_reword {f : Place → String → String}
    (hempty : ∀ p source, f p source = "" ↔ source = "")
    (hkeeps : ∀ p, hidden p = false → f p = id) (w : Written) :
    (w.reword f).masked hidden = w.masked hidden := by
  have hsource (p : Place) : p.hideSource hidden ∘ f p = p.hideSource hidden := by
    cases hp : hidden p with
    | false => rw [hkeeps p hp, Function.comp_id]
    | true =>
        funext source
        by_cases hsource : source = ""
        · rw [hsource, Function.comp_apply, (hempty p "").2 rfl]
        · simp [Place.hideSource, hp, hempty, hsource]
  rw [masked, reword_reword]
  simp only [hsource]

theorem nonEmpty_map_hideSource (p : Place) (source : Option String) :
    nonEmpty (source.map (p.hideSource hidden)) = (nonEmpty source).map (p.hideSource hidden) := by
  cases source with
  | none => rfl
  | some text =>
      by_cases htext : text = ""
      · simp [nonEmpty, Option.filter_some, htext, Place.hideSource]
      · simp [nonEmpty, Option.filter_some, htext, Place.hideSource_eq_empty_iff]

theorem Place.hide_settled (p : Place) (source : String) :
    p.hide hidden (engine.settled (p.hideSource hidden source)) =
      p.hide hidden (engine.settled source) := by
  cases hp : hidden p with
  | true => simp [hide, hp]
  | false => simp [hideSource, hp]

theorem Place.map_hide_settled (p : Place) (source : Option String) :
    ((nonEmpty (source.map (p.hideSource hidden))).map engine.settled).map (p.hide hidden) =
      ((nonEmpty source).map engine.settled).map (p.hide hidden) := by
  rw [nonEmpty_map_hideSource]
  simp only [Option.map_map, Function.comp_def, hide_settled]

/-! ## Actions and triggers -/

theorem prepareGuard_of_lenient (hmode : engine.mode = .lenient) (source : Option String) :
    prepareGuard engine source = .ok ((nonEmpty source).map engine.settled) := by
  rw [prepareGuard, nonEmpty]
  cases source.filter (· ≠ "") with
  | none => rfl
  | some text => simp [prepare_of_lenient hmode]

theorem fork_sameUpTo (hmode : engine.mode = .lenient) (name : String) (draft : ForkDraft) :
    SameUpTo (Fork.mapConditions (Place.hide hidden) name)
      (Fork.ofDraft engine (draft.reword (Place.hideSource hidden) name))
      (Fork.ofDraft engine draft) := by
  rw [Fork.ofDraft, Fork.ofDraft, prepare_of_lenient hmode, prepare_of_lenient hmode]
  simp only [ForkDraft.reword, Place.hideSource_eq_empty_iff]
  refine .ite .rfl (.refl _) (.ite .rfl (.refl _) (.ok ?_))
  simp only [Fork.mapConditions, Place.hide_settled]

/-- Rewording a payload rewords the fork that is read from it. -/
theorem fork_read?_rewordPayload (name : String) (data : Json) :
    ForkDraft.read? (Written.ofValue (data.rewordPayload (Place.hideSource hidden) name)) =
      (ForkDraft.read? (Written.ofValue data)).map
        (ForkDraft.reword (Place.hideSource hidden) name) := by
  rw [Json.ofValue_rewordPayload, ForkDraft.read?_rewordFork]
  intro p
  exact Place.hideSource_eq_empty_iff.2 rfl

theorem action_sameUpTo (hmode : engine.mode = .lenient) (name : String) (draft : ActionDraft) :
    SameUpTo (Action.mapConditions (Place.hide hidden) name)
      (Action.ofDraft engine (draft.reword (Place.hideSource hidden) name))
      (Action.ofDraft engine draft) := by
  by_cases hkind : draft.kind = "conditional_action"
  · simp only [Action.ofDraft, ActionDraft.reword, hkind, if_true, fork_read?_rewordPayload]
    cases ForkDraft.read? (Written.ofValue draft.data) with
    | none => exact .refl _
    | some fork =>
        refine (fork_sameUpTo hmode name fork).map fun a b hab => ?_
        exact congrArg Action.fork hab
  · have hdata : (draft.reword (Place.hideSource hidden) name).data = draft.data := if_neg hkind
    rw [Action.ofDraft, Action.ofDraft, hdata]
    exact .refl _

theorem guardedAction_sameUpTo (hmode : engine.mode = .lenient) (name : String)
    (draft : ActionDraft) :
    SameUpTo (GuardedAction.mapConditions (Place.hide hidden) name)
      (GuardedAction.ofDraft engine (draft.reword (Place.hideSource hidden) name))
      (GuardedAction.ofDraft engine draft) := by
  have hcheck (draft : ActionDraft) : GuardedAction.ofDraft engine draft =
      (Action.ofDraft engine draft).map
        (GuardedAction.mk ((nonEmpty draft.guard).map engine.settled)) := by
    rw [GuardedAction.ofDraft, prepareGuard_of_lenient hmode]
    cases Action.ofDraft engine draft <;> rfl
  rw [hcheck, hcheck]
  refine (action_sameUpTo hmode name draft).map fun a b hab => ?_
  simp only [GuardedAction.mapConditions, hab, ActionDraft.reword, Place.map_hide_settled]

theorem trigger_sameUpTo (hmode : engine.mode = .lenient) (name : String) (draft : TriggerDraft) :
    SameUpTo (Trigger.mapConditions (Place.hide hidden) name)
      (Trigger.ofDraft engine (draft.reword (Place.hideSource hidden) name))
      (Trigger.ofDraft engine draft) := by
  rw [Trigger.ofDraft, Trigger.ofDraft, prepareGuard_of_lenient hmode,
    prepareGuard_of_lenient hmode]
  refine .ite .rfl (.refl _) (.ite .rfl (.refl _) (.ok ?_))
  simp only [Trigger.mapConditions, TriggerDraft.reword, Place.map_hide_settled]

/-! ## Notifications -/

namespace Notification

theorem checkCondition_of_lenient (hmode : engine.mode = .lenient) (issue : NotificationIssue)
    (source : String) : checkCondition engine issue source = .ok (engine.settled source) := by
  rw [checkCondition, prepare_of_lenient hmode]

theorem checkSchedule_sameUpTo (hmode : engine.mode = .lenient) (id : String)
    (source : Option String) :
    SameUpTo (Option.map ((Place.schedule id).hide hidden))
      (checkSchedule engine id (source.map ((Place.schedule id).hideSource hidden)))
      (checkSchedule engine id source) := by
  have hcheck (source : Option String) :
      checkSchedule engine id source = .ok ((nonEmpty source).map engine.settled) := by
    rw [checkSchedule]
    cases nonEmpty source with
    | none => rfl
    | some text =>
        dsimp only
        rw [checkCondition_of_lenient hmode]
        rfl
  rw [hcheck, hcheck]
  exact .ok (Place.map_hide_settled _ source)

theorem checkIdeal?_sameUpTo (hmode : engine.mode = .lenient) (id : String)
    (draft : Option IdealDeliveryDraft) :
    SameUpTo (Option.map (IdealDelivery.mapConditions (Place.hide hidden) id))
      (checkIdeal? engine id (draft.map (IdealDeliveryDraft.reword (Place.hideSource hidden) id)))
      (checkIdeal? engine id draft) := by
  cases draft with
  | none => exact .refl _
  | some draft =>
      rw [Option.map_some, checkIdeal?, checkIdeal?]
      refine SameUpTo.map (k := IdealDelivery.mapConditions (Place.hide hidden) id) ?_
        fun _ _ => congrArg some
      unfold checkIdeal
      simp only [IdealDeliveryDraft.reword, nonEmpty_map_hideSource,
        checkCondition_of_lenient hmode]
      cases nonEmpty draft.condition with
      | none => exact .refl _
      | some source =>
          have hideal (wait : Option Int) :
              SameUpTo (ε := NotificationIssue)
                (IdealDelivery.mapConditions (Place.hide hidden) id)
                (pure ⟨engine.settled ((Place.ideal id).hideSource hidden source), wait⟩)
                (pure ⟨engine.settled source, wait⟩) := by
            refine .ok ?_
            simp only [IdealDelivery.mapConditions, Place.hide_settled]
          exact .ite .rfl (hideal _) (.ite .rfl (hideal _) (.refl _))

/-- Hiding conditions does not change whether a notification is accepted. -/
theorem sameUpTo (hmode : engine.mode = .lenient) (id : String) (draft : NotificationDraft) :
    SameUpTo (mapConditions (Place.hide hidden) id)
      (ofDraft engine id (draft.reword (Place.hideSource hidden) id))
      (ofDraft engine id draft) := by
  obtain ⟨mode, names⟩ := engine
  obtain rfl : mode = .lenient := hmode
  unfold ofDraft
  simp only [NotificationDraft.reword]
  refine .guard .rfl (.step _ fun badge => .guard .rfl (.step _ fun window => .guard .rfl ?_))
  refine (checkSchedule_sameUpTo rfl id draft.scheduleCondition).bind
    fun schedule schedule' hschedule => .guard .rfl ?_
  refine (checkIdeal?_sameUpTo rfl id draft.ideal).bind fun ideal ideal' hideal => ?_
  cases DueTime.ofDraft .lenient draft.due with
  | error issue => exact .refl _
  | ok due =>
      refine .ok ?_
      simp only [mapConditions, hschedule, hideal]

end Notification

/-! ## Whole configurations -/

namespace Config

variable (hidden)

/-- A table whose entries pass or fail alike has the same first issue. -/
theorem checkTable_map {α β : Type} {check : String → α → Except Issue β} {r : String → α → α}
    {k : String → β → β}
    (hcheck : ∀ name x, SameUpTo (k name) (check name (r name x)) (check name x))
    (table : List (String × α)) :
    (checkTable check (NameMap.map r table)).2 = (checkTable check table).2 ∧
      NameMap.map k (checkTable check (NameMap.map r table)).1 =
        NameMap.map k (checkTable check table).1 := by
  induction table with
  | nil => exact ⟨rfl, rfl⟩
  | cons entry table ih =>
      obtain ⟨name, x⟩ := entry
      obtain ⟨hissue, hpassed⟩ := ih
      have hentry := hcheck name x
      rw [NameMap.map_cons, checkTable, checkTable]
      dsimp only
      generalize check name (r name x) = reworded at hentry ⊢
      generalize check name x = checked at hentry ⊢
      cases hentry with
      | error err => exact ⟨rfl, hpassed⟩
      | ok h => exact ⟨hissue, by rw [NameMap.map_cons, NameMap.map_cons, h, hpassed]⟩

theorem checkAction_sameUpTo (hmode : engine.mode = .lenient) (name : String)
    (draft : ActionDraft) :
    SameUpTo (GuardedAction.mapConditions (Place.hide hidden) name)
      (checkAction engine name (draft.reword (Place.hideSource hidden) name))
      (checkAction engine name draft) := by
  rw [checkAction_eq_mapError, checkAction_eq_mapError]
  exact (guardedAction_sameUpTo hmode name draft).mapError _

theorem checkTrigger_sameUpTo (hmode : engine.mode = .lenient) (name : String)
    (draft : TriggerDraft) :
    SameUpTo (Trigger.mapConditions (Place.hide hidden) name)
      (checkTrigger engine name (draft.reword (Place.hideSource hidden) name))
      (checkTrigger engine name draft) := by
  rw [checkTrigger_eq_mapError, checkTrigger_eq_mapError]
  exact (trigger_sameUpTo hmode name draft).mapError _

theorem checkCondition_sameUpTo (hmode : engine.mode = .lenient) (name source : String) :
    SameUpTo ((Place.named name).hide hidden)
      (checkCondition engine name ((Place.named name).hideSource hidden source))
      (checkCondition engine name source) := by
  rw [checkCondition, checkCondition, prepare_of_lenient hmode, prepare_of_lenient hmode]
  exact .ok (Place.hide_settled _ source)

theorem checkNotification_sameUpTo (hmode : engine.mode = .lenient) (id : String)
    (draft : NotificationDraft) :
    SameUpTo (Notification.mapConditions (Place.hide hidden) id)
      (checkNotification engine id (draft.reword (Place.hideSource hidden) id))
      (checkNotification engine id draft) := by
  rw [checkNotification_eq_mapError, checkNotification_eq_mapError]
  exact (Notification.sameUpTo hmode id draft).mapError _

theorem hasEmptyName_map {α β : Type} (k : String → α → β) (table : List (String × α)) :
    hasEmptyName (NameMap.map k table) = hasEmptyName table := by
  rw [hasEmptyName, NameMap.map, List.any_map]
  rfl

theorem danglingTrigger_reword (f : Place → String → String) (names : List String)
    (triggers : List (String × TriggerDraft)) :
    danglingTrigger names (NameMap.map (TriggerDraft.reword f) triggers) =
      danglingTrigger names triggers := by
  rw [danglingTrigger, NameMap.map, List.findSome?_map]
  rfl

/-- Which actions an action may run does not depend on its conditions. -/
theorem danglingAction_eq {g : Place → Condition → Condition} {names : List String}
    {actions actions' : List (String × GuardedAction)}
    (h : NameMap.map (GuardedAction.mapConditions g) actions =
      NameMap.map (GuardedAction.mapConditions g) actions') :
    danglingAction names actions = danglingAction names actions' := by
  have hnames (name : String) (a : GuardedAction) :
      (a.mapConditions g name).action.embeddedNames = a.action.embeddedNames := by
    rw [GuardedAction.mapConditions]
    cases a.action <;> rfl
  have hmap (actions : List (String × GuardedAction)) :
      danglingAction names (NameMap.map (GuardedAction.mapConditions g) actions) =
        danglingAction names actions := by
    rw [danglingAction, NameMap.map, List.findSome?_map]
    simp only [Function.comp_def, hnames]
    rfl
  rw [← hmap, h, hmap]

theorem danglingTap_eq {g : Place → Condition → Condition} {names : List String}
    {notifications notifications' : List (String × Notification)}
    (h : NameMap.map (Notification.mapConditions g) notifications =
      NameMap.map (Notification.mapConditions g) notifications') :
    danglingTap names notifications = danglingTap names notifications' := by
  have hmap (notifications : List (String × Notification)) :
      danglingTap names (NameMap.map (Notification.mapConditions g) notifications) =
        danglingTap names notifications := by
    rw [danglingTap, NameMap.map, List.findSome?_map]
    rfl
  rw [← hmap, h, hmap]

/-- Hiding conditions does not change whether a configuration is accepted. -/
theorem ofDraft_sameUpTo (hmode : engine.mode = .lenient) (draft : ConfigDraft) :
    SameUpTo (mapConditions (Place.hide hidden))
      (ofDraft engine (draft.reword (Place.hideSource hidden))) (ofDraft engine draft) := by
  have hactions := checkTable_map (checkAction_sameUpTo hidden hmode) draft.actions
  have htriggers := checkTable_map (checkTrigger_sameUpTo hidden hmode) draft.triggers
  have hconditions :=
    checkTable_map (checkCondition_sameUpTo hidden hmode) draft.conditions
  have hnotifications :=
    checkTable_map (checkNotification_sameUpTo hidden hmode) draft.notifications
  unfold ofDraft
  simp only [ConfigDraft.reword]
  refine .guard .rfl (.guard .rfl (.step _ fun _ => .step _ fun _ => .step _ fun _ => ?_))
  rw [hactions.1, htriggers.1, hconditions.1, hnotifications.1, NameMap.map_fst_map,
    danglingTrigger_reword, danglingAction_eq hactions.2, danglingTap_eq hnotifications.2]
  refine .step _ fun _ => .step _ fun _ => .step _ fun _ =>
    .guard (by rw [hasEmptyName_map, hasEmptyName_map]) (.step _ fun _ => .ok ?_)
  simp only [mapConditions, hactions.2, htriggers.2, hconditions.2, hnotifications.2]

/-- Documents that are the same with some conditions hidden are read alike, and what is read is
accepted alike. -/
theorem ofJson_sameUpTo (hmode : engine.mode = .lenient) {bytes bytes' : List UInt8}
    {w w' : Written} (hparse : Written.parse? bytes = some w)
    (hparse' : Written.parse? bytes' = some w') (hmasked : w.masked hidden = w'.masked hidden) :
    SameUpTo (masked hidden) (ofJson engine bytes) (ofJson engine bytes') := by
  have hread : (ConfigDraft.read? w).map (ConfigDraft.reword (Place.hideSource hidden)) =
      (ConfigDraft.read? w').map (ConfigDraft.reword (Place.hideSource hidden)) := by
    rw [← ConfigDraft.read?_reword, ← ConfigDraft.read?_reword]
    exact congrArg ConfigDraft.read? hmasked
  have hcheck (bytes : List UInt8) (w : Written) (hparse : Written.parse? bytes = some w) :
      SameUpTo (masked hidden)
        (((ConfigDraft.read? w).map (ConfigDraft.reword (Place.hideSource hidden))).elim
          (.error .unreadable) fun draft => (ofDraft engine draft).mapError Error.invalid)
        (ofJson engine bytes) := by
    rw [ofJson, hparse, Option.bind_some]
    cases ConfigDraft.read? w with
    | none => exact .refl _
    | some draft =>
        have hdraft := (ofDraft_sameUpTo hidden hmode draft).mapError Error.invalid
        refine hdraft.trans ?_
        dsimp only
        cases ofDraft engine draft <;> exact .refl _
  have hleft := hcheck bytes w hparse
  rw [hread] at hleft
  exact hleft.symm.trans (hcheck bytes' w' hparse')

/-- In lenient mode the texts of conditions do not decide about a configuration. Two documents
that are the same with the conditions at some places hidden, so that each text there may have
been replaced by any other text that is not empty, have the same outcome: the same error, or
configurations that are the same with the conditions at these places hidden. In a configuration
that is accepted each condition stands where its source does; it is degraded if the source does
not compile, and keeps the source otherwise. -/
theorem outcome_of_rewording (hmode : engine.mode = .lenient)
    {bytes bytes' : List UInt8} {w w' : Written} (hparse : Written.parse? bytes = some w)
    (hparse' : Written.parse? bytes' = some w') (hmasked : w.masked hidden = w'.masked hidden) :
    SameUpTo (masked hidden) (ofJson engine bytes) (ofJson engine bytes') ∧
      ∀ c, ofJson engine bytes = .ok c → ∃ draft, ConfigDraft.read? w = some draft ∧
        c.allConditions = c.placed.map Prod.snd ∧
        List.Forall₂ (fun source condition =>
          source.1 = condition.1 ∧ condition.2.Settles source.2) draft.sources c.placed := by
  refine ⟨ofJson_sameUpTo hidden hmode hparse hparse' hmasked, fun c h => ?_⟩
  obtain ⟨draft, hread, hdraft⟩ := ofJson_eq_ok_iff.1 h
  rw [hparse] at hread
  refine ⟨draft, hread, c.allConditions_eq, (forall₂_placed_of_ofDraft hdraft).imp ?_⟩
  rintro source condition ⟨hplace, hprepared⟩
  exact ⟨hplace, hprepared.settles hmode⟩

end Config

end Hiding

namespace Config

/-- A configuration with a fork that runs itself, as a text. All records are written as arrays. -/
def asking (source : String) : List UInt8 :=
  ("[\"v1\",\"a\",null,null,null,null,[\x7b\"ask\":[\"conditional_action\",null,[\"" ++ source ++
    "\",\"ask\"]]\x7d]]").toUTF8.toList

/-- The document that the text is read as. -/
def askingDocument (source : String) : Written :=
  .array [.text (some "v1"), .text (some "a"), .null, .null, .null, .null,
    .array [.object [(some "ask", .array [.text (some "conditional_action"), .null,
      .array [.text (some source), .text (some "ask")]])]]]

/-- A condition that does not compile costs the fork its condition, and nothing else. -/
theorem nonsense_degrades_fork :
    let engine : Condition.Engine := ⟨.lenient, []⟩
    let everywhere : Place → Bool := fun _ => true
    ∃ c c', ofJson engine (asking "tier > 2") = .ok c ∧ ofJson engine (asking ")(") = .ok c' ∧
      c.masked everywhere = c'.masked everywhere ∧
      c.allConditions.map (fun condition => condition.degraded.isSome) = [false] ∧
      c'.allConditions.map (fun condition => condition.degraded.isSome) = [true] := by
  intro engine everywhere
  have hparse : Written.parse? (asking "tier > 2") = some (askingDocument "tier > 2") := by cbv
  have hparse' : Written.parse? (asking ")(") = some (askingDocument ")(") := by cbv
  have hmasked : (askingDocument "tier > 2").masked everywhere =
      (askingDocument ")(").masked everywhere := by cbv
  obtain ⟨hsame, -⟩ :=
    outcome_of_rewording everywhere (show engine.mode = .lenient from rfl) hparse hparse' hmasked
  have hdegraded : (ofJson engine (asking "tier > 2")).toOption.map (fun c =>
      c.allConditions.map fun condition => condition.degraded.isSome) = some [false] := by
    decide +kernel
  have hdegraded' : (ofJson engine (asking ")(")).toOption.map (fun c =>
      c.allConditions.map fun condition => condition.degraded.isSome) = some [true] := by
    decide +kernel
  cases h : ofJson engine (asking "tier > 2") with
  | error err => simp [h, Except.toOption] at hdegraded
  | ok c =>
      cases h' : ofJson engine (asking ")(") with
      | error err => simp [h', Except.toOption] at hdegraded'
      | ok c' =>
          rw [h, h'] at hsame
          cases hsame with
          | ok hmasked =>
              refine ⟨c, c', rfl, rfl, hmasked, ?_, ?_⟩
              · simpa [h, Except.toOption] using hdegraded
              · simpa [h', Except.toOption] using hdegraded'

end Config

end Targeting
