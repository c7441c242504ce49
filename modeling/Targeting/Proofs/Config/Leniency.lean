/-
# Strict validation is the narrower one

Strict validation is for writing configurations, lenient validation for reading them. What
lenient validation does on top (it degrades conditions, drops badge counts, falls back to
the whole day, keeps kinds and levels that it does not know) only happens where strict
validation refuses. So a configuration that was accepted when it was written is read as
the same configuration, and none of its conditions is degraded.

The law holds for each check, down to the compilation of a condition, for the same names
declared in both modes. `Extends` says it of two results, and is kept by the steps of a
check.
-/

import Targeting.Proofs.Config.Checked

namespace Targeting

open Condition (exists_of_bind_eq_ok)
open Config (mapError_eq_ok_iff)

/-! ## Results that extend others -/

/-- The first result is the second one, unless that is an error. -/
def Extends {ε α : Type} (lax strict : Except ε α) : Prop :=
  ∀ a, strict = .ok a → lax = .ok a

namespace Extends

variable {ε α β : Type}

theorem refl (x : Except ε α) : Extends x x := fun _ h => h

theorem bind {lax strict : Except ε α} {f g : α → Except ε β} (h : Extends lax strict)
    (hnext : ∀ a, Extends (f a) (g a)) : Extends (lax >>= f) (strict >>= g) := by
  intro b hb
  obtain ⟨a, ha, hrest⟩ := exists_of_bind_eq_ok hb
  rw [h a ha]
  exact hnext a b hrest

theorem map {lax strict : Except ε α} (f : α → β) (h : Extends lax strict) :
    Extends (lax.map f) (strict.map f) := by
  intro b hb
  cases strict with
  | error err => cases hb
  | ok a => rw [h a rfl, ← hb]

theorem mapError {ε' : Type} {lax strict : Except ε α} (err : ε → ε') (h : Extends lax strict) :
    Extends (lax.mapError err) (strict.mapError err) :=
  fun a ha => mapError_eq_ok_iff.2 (h a (mapError_eq_ok_iff.1 ha))

/-- Both results depend on the same test. -/
theorem ite {c : Prop} [Decidable c] {lax strict lax' strict' : Except ε α}
    (hpos : Extends lax strict) (hneg : Extends lax' strict') :
    Extends (if c then lax else lax') (if c then strict else strict') := by
  by_cases hc : c
  · rw [if_pos hc, if_pos hc]
    exact hpos
  · rw [if_neg hc, if_neg hc]
    exact hneg

/-- A guard that both modes have. -/
theorem guard {c : Prop} [Decidable c] {err : ε} {f g : Unit → Except ε β}
    (hnext : Extends (f ()) (g ())) :
    Extends (if c then (throw err : Except ε Unit) >>= f else f ())
      (if c then (throw err : Except ε Unit) >>= g else g ()) := by
  apply ite
  · exact (refl (throw err)).bind fun _ => hnext
  · exact hnext

end Extends

/-! ## Conditions -/

section Parts

variable {names : List String}

/-- A source that strict validation accepts is prepared alike in both modes. -/
theorem Condition.Prepared.lenient {source : String} {c : Condition}
    (h : Condition.Prepared ⟨.strict, names⟩ source c) :
    Condition.Prepared ⟨.lenient, names⟩ source c := by
  obtain ⟨program, hstrict, rfl⟩ := h.of_strict
  obtain ⟨compiled, hcompile, hchecked⟩ := exists_of_bind_eq_ok hstrict
  obtain ⟨_, -, hpure⟩ := exists_of_bind_eq_ok hchecked
  obtain rfl : compiled = program := Except.ok.inj hpure
  rw [Condition.Prepared, Condition.prepare_ofSource, Condition.Engine.compile_of_lenient rfl,
    hcompile]

theorem rel_prepared_lenient {source : Option String} {c : Option Condition}
    (h : Option.Rel (Condition.Prepared ⟨.strict, names⟩) source c) :
    Option.Rel (Condition.Prepared ⟨.lenient, names⟩) source c := by
  cases h with
  | none => exact .none
  | some hprepared => exact .some hprepared.lenient

theorem prepareGuard_extends (source : Option String) :
    Extends (prepareGuard ⟨.lenient, names⟩ source) (prepareGuard ⟨.strict, names⟩ source) :=
  fun _ h => prepareGuard_eq_ok_iff.2 (rel_prepared_lenient (prepareGuard_eq_ok_iff.1 h))

/-! ## Actions and triggers -/

theorem fork_extends (draft : ForkDraft) :
    Extends (Fork.ofDraft ⟨.lenient, names⟩ draft) (Fork.ofDraft ⟨.strict, names⟩ draft) := by
  intro fork h
  obtain ⟨hcondition, hpassed, c, hprepared, hfork⟩ := fork_eq_ok_iff.1 h
  exact fork_eq_ok_iff.2 ⟨hcondition, hpassed, c, hprepared.lenient, hfork⟩

/-- Strict validation knows the kind of every action that it accepts. -/
theorem action_extends (draft : ActionDraft) :
    Extends (Action.ofDraft ⟨.lenient, names⟩ draft) (Action.ofDraft ⟨.strict, names⟩ draft) := by
  unfold Action.ofDraft
  split
  case h_7 =>
      cases ForkDraft.read? (Json.Written.ofValue draft.data) with
      | none => exact .refl _
      | some fork => exact (fork_extends fork).map Action.fork
  case h_8 =>
      intro action h
      cases h
  all_goals exact .refl _

theorem guardedAction_extends (draft : ActionDraft) :
    Extends (GuardedAction.ofDraft ⟨.lenient, names⟩ draft)
      (GuardedAction.ofDraft ⟨.strict, names⟩ draft) := by
  intro a h
  rw [GuardedAction.ofDraft] at h ⊢
  cases haction : Action.ofDraft ⟨.strict, names⟩ draft with
  | error issue => simp [haction] at h
  | ok action =>
      cases hguard : prepareGuard ⟨.strict, names⟩ draft.guard with
      | error issue => simp [haction, hguard] at h
      | ok guard =>
          rw [haction, hguard] at h
          rw [action_extends draft action haction, prepareGuard_extends _ guard hguard]
          exact h

theorem trigger_extends (draft : TriggerDraft) :
    Extends (Trigger.ofDraft ⟨.lenient, names⟩ draft)
      (Trigger.ofDraft ⟨.strict, names⟩ draft) := by
  rw [Trigger.ofDraft, Trigger.ofDraft]
  refine .ite (.refl _) (.ite (.refl _) ?_)
  intro t h
  cases hguard : prepareGuard ⟨.strict, names⟩ draft.guard with
  | error issue => simp [hguard] at h
  | ok guard =>
      rw [hguard] at h
      rw [prepareGuard_extends _ guard hguard]
      exact h

/-! ## Notifications -/

namespace Notification

/-- Strict validation accepts no negative badge count. -/
theorem checkBadge_extends (count : Option Int64) :
    Extends (checkBadge .lenient count) (checkBadge .strict count) := by
  cases count with
  | none => exact .refl _
  | some count =>
      apply Extends.ite
      · intro badge h
        cases h
      · exact .refl _

/-- Strict validation accepts no time of day that it cannot read. -/
theorem checkMinute_extends (field : String) (default : Nat) (text : Option String) :
    Extends (checkMinute .lenient field default text)
      (checkMinute .strict field default text) := by
  cases text with
  | none => exact .refl _
  | some text =>
      intro minute h
      cases hread : minuteOfDay? text with
      | none => simp [checkMinute, hread] at h
      | some read =>
          simp only [checkMinute, hread] at h ⊢
          exact h

theorem checkWindow_extends (draft : NotificationDraft) :
    Extends (checkWindow .lenient draft) (checkWindow .strict draft) := by
  unfold checkWindow
  refine .guard (.guard ?_)
  refine (checkMinute_extends _ _ _).bind fun first => ?_
  refine (checkMinute_extends _ _ _).bind fun last => ?_
  exact .refl _

theorem checkCondition_extends (issue : NotificationIssue) (source : String) :
    Extends (checkCondition ⟨.lenient, names⟩ issue source)
      (checkCondition ⟨.strict, names⟩ issue source) :=
  fun _ h => checkCondition_eq_ok_iff.2 (checkCondition_eq_ok_iff.1 h).lenient

theorem checkSchedule_extends (id : String) (source : Option String) :
    Extends (checkSchedule ⟨.lenient, names⟩ id source)
      (checkSchedule ⟨.strict, names⟩ id source) :=
  fun _ h => checkSchedule_eq_ok_iff.2 (rel_prepared_lenient (checkSchedule_eq_ok_iff.1 h))

theorem checkIdeal?_extends (id : String) (draft : Option IdealDeliveryDraft) :
    Extends (checkIdeal? ⟨.lenient, names⟩ id draft) (checkIdeal? ⟨.strict, names⟩ id draft) := by
  cases draft with
  | none => exact .refl _
  | some draft =>
      apply Extends.map
      unfold checkIdeal
      cases nonEmpty draft.condition with
      | none => exact .refl _
      | some source => exact (checkCondition_extends _ source).bind fun _ => .refl _

/-- Strict validation knows every occurrence that it accepts. -/
theorem dueTime_extends (draft : DueTimeDraft) :
    Extends (DueTime.ofDraft .lenient draft) (DueTime.ofDraft .strict draft) := by
  intro due h
  unfold DueTime.ofDraft at h ⊢
  split at h
  case h_1 => cases h
  case h_2 => cases h
  case h_3 => exact h
  case h_4 =>
      dsimp only at h ⊢
      split at h
      · cases h
      · exact h

theorem ofDraft_extends (id : String) (draft : NotificationDraft) :
    Extends (ofDraft ⟨.lenient, names⟩ id draft) (ofDraft ⟨.strict, names⟩ id draft) := by
  unfold ofDraft
  refine .guard ?_
  refine (checkBadge_extends _).bind fun badge => .guard ?_
  refine (checkWindow_extends _).bind fun window => .guard ?_
  intro n h
  replace h := (strict_guard_eq_ok h).2
  revert n h
  refine (checkSchedule_extends _ _).bind fun schedule => .guard ?_
  refine (checkIdeal?_extends _ _).bind fun ideal => ?_
  intro n h
  cases hdue : DueTime.ofDraft .strict draft.due with
  | error issue =>
      rw [hdue] at h
      cases h
  | ok due =>
      rw [hdue] at h
      rw [dueTime_extends _ due hdue]
      exact h

end Notification

end Parts

/-! ## Configurations -/

namespace Config

variable {names : List String}

/-- A table that passes strict validation passes lenient validation. -/
theorem checkTable_extends {α β : Type} {lax strict : String → α → Except Issue β}
    (hcheck : ∀ name draft, Extends (lax name draft) (strict name draft))
    {table : List (String × α)} {passed : List (String × β)}
    (h : checkTable strict table = (passed, none)) : checkTable lax table = (passed, none) := by
  rw [checkTable_eq_none_iff] at h ⊢
  exact h.imp fun entry checked ⟨hname, hok⟩ => ⟨hname, hcheck _ _ _ hok⟩

theorem checkAction_extends (name : String) (draft : ActionDraft) :
    Extends (checkAction ⟨.lenient, names⟩ name draft)
      (checkAction ⟨.strict, names⟩ name draft) := by
  rw [checkAction_eq_mapError, checkAction_eq_mapError]
  exact (guardedAction_extends draft).mapError _

theorem checkTrigger_extends (name : String) (draft : TriggerDraft) :
    Extends (checkTrigger ⟨.lenient, names⟩ name draft)
      (checkTrigger ⟨.strict, names⟩ name draft) := by
  rw [checkTrigger_eq_mapError, checkTrigger_eq_mapError]
  exact (trigger_extends draft).mapError _

theorem checkCondition_extends (name source : String) :
    Extends (checkCondition ⟨.lenient, names⟩ name source)
      (checkCondition ⟨.strict, names⟩ name source) :=
  fun _ h => checkCondition_eq_ok_iff.2 (checkCondition_eq_ok_iff.1 h).lenient

theorem checkNotification_extends (id : String) (draft : NotificationDraft) :
    Extends (checkNotification ⟨.lenient, names⟩ id draft)
      (checkNotification ⟨.strict, names⟩ id draft) := by
  rw [checkNotification_eq_mapError, checkNotification_eq_mapError]
  exact (Notification.ofDraft_extends id draft).mapError _

theorem Tables.lenient {draft : ConfigDraft} {c : Config}
    (h : Tables ⟨.strict, names⟩ draft c) : Tables ⟨.lenient, names⟩ draft c where
  actions := checkTable_extends checkAction_extends h.actions
  triggers := checkTable_extends checkTrigger_extends h.triggers
  conditions := checkTable_extends checkCondition_extends h.conditions
  notifications := checkTable_extends checkNotification_extends h.notifications

/-- The mode only matters to the check of a configuration through its tables. -/
theorem ofDraft_extends (draft : ConfigDraft) :
    Extends (ofDraft ⟨.lenient, names⟩ draft) (ofDraft ⟨.strict, names⟩ draft) := by
  intro c h
  have hstrict := tables_of_ofDraft h
  have hlenient := hstrict.lenient
  rw [← h]
  unfold ofDraft
  rw [hstrict.actions, hstrict.triggers, hstrict.conditions, hstrict.notifications,
    hlenient.actions, hlenient.triggers, hlenient.conditions, hlenient.notifications]

/-- Strict validation degrades no condition. -/
theorem degraded_eq_none_of_strict {draft : ConfigDraft} {c : Config}
    (h : ofDraft ⟨.strict, names⟩ draft = .ok c) {condition : Condition}
    (hmem : condition ∈ c.allConditions) : condition.degraded = none := by
  rw [allConditions_eq, List.mem_map] at hmem
  obtain ⟨placed, hplaced, rfl⟩ := hmem
  obtain ⟨i, rfl⟩ := List.mem_iff_get.1 hplaced
  have hall := forall₂_placed_of_ofDraft h
  obtain ⟨-, hprepared⟩ := hall.get (by rw [hall.length_eq]; exact i.isLt) i.isLt
  obtain ⟨program, -, hcondition⟩ := hprepared.of_strict
  exact (congrArg Condition.degraded hcondition).trans rfl

/-- A configuration that strict validation accepts is read as the same configuration by lenient
validation with the same names declared, and none of its conditions is degraded. -/
theorem ofJson_lenient_of_strict (names : List String) (bytes : List UInt8) (c : Config)
    (h : ofJson ⟨.strict, names⟩ bytes = .ok c) :
    ofJson ⟨.lenient, names⟩ bytes = .ok c ∧
      ∀ condition ∈ c.allConditions, condition.degraded = none := by
  obtain ⟨draft, hread, hstrict⟩ := ofJson_eq_ok_iff.1 h
  exact ⟨ofJson_eq_ok_iff.2 ⟨draft, hread, ofDraft_extends draft c hstrict⟩,
    fun condition => degraded_eq_none_of_strict hstrict⟩

/-- A configuration with a notification that is only scheduled for a high tier. -/
def upgrade : List UInt8 :=
  ("\x7b\"configVersion\":\"v1\",\"appId\":\"a\",\"notifications\":\x7b\"n\":\x7b" ++
    "\"badgeCount\":1,\"scheduleCondition\":\"tier > 2\"," ++
    "\"deliveryTime\":\x7b\"timestamp\":0\x7d\x7d\x7d\x7d").toUTF8.toList

/-- The condition of the upgrade is read as it was written. -/
theorem condition_of_upgrade : ∃ c, ofJson ⟨.strict, ["tier"]⟩ upgrade = .ok c ∧
    ofJson ⟨.lenient, ["tier"]⟩ upgrade = .ok c ∧ c.allConditions.length = 1 ∧
      ∀ condition ∈ c.allConditions, condition.degraded = none := by
  have hcount : (ofJson ⟨.strict, ["tier"]⟩ upgrade).toOption.map
      (fun c => c.allConditions.length) = some 1 := by
    decide +kernel
  cases hstrict : ofJson ⟨.strict, ["tier"]⟩ upgrade with
  | error err => simp [hstrict, Except.toOption] at hcount
  | ok c =>
      obtain ⟨hlenient, hnone⟩ := ofJson_lenient_of_strict ["tier"] upgrade c hstrict
      exact ⟨c, rfl, hlenient, by simpa [hstrict, Except.toOption] using hcount, hnone⟩

end Config

end Targeting
