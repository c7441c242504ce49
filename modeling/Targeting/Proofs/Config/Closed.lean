/-
# Accepted configurations are closed

The names in a configuration that is accepted lead somewhere. What its triggers run, what its
actions may run next and what its notifications run when they are tapped are actions of the
configuration. References are checked against the names that are written, among them those of
actions with issues; but then there are no actions with issues, so what is written is there.
-/

import Targeting.Proofs.Config.Checked

namespace Targeting

open Condition (Engine)

/-- What a trigger that is accepted takes over from its draft is not empty. -/
theorem Trigger.of_ofDraft {engine : Engine} {draft : TriggerDraft} {t : Trigger}
    (h : Trigger.ofDraft engine draft = .ok t) :
    t.event ≠ "" ∧ t.action ≠ "" ∧ t.action = draft.action := by
  rw [Trigger.ofDraft] at h
  split at h
  · cases h
  · split at h
    · cases h
    · cases hguard : prepareGuard engine draft.guard with
      | error issue => simp [hguard] at h
      | ok guard =>
          simp only [hguard, Except.ok.injEq] at h
          subst h
          exact ⟨‹_›, ‹_›, rfl⟩

namespace Config

/-- A configuration has an action under a name. -/
def HasAction (c : Config) (name : String) : Prop := name ∈ c.actions.map Prod.fst

/-- Every action that a configuration refers to is one of its own, its triggers listen to events
with a name, and none of its actions, themes and triggers goes by the empty name. -/
structure Closed (c : Config) : Prop where
  events : ∀ entry ∈ c.triggers, entry.2.event ≠ ""
  triggers : ∀ entry ∈ c.triggers, c.HasAction entry.2.action
  actions : ∀ entry ∈ c.actions, ∀ name ∈ entry.2.action.embeddedNames, c.HasAction name
  taps : ∀ entry ∈ c.notifications, ∀ name ∈ entry.2.tapAction, c.HasAction name
  actionNames : "" ∉ c.actions.map Prod.fst
  themeNames : "" ∉ c.themes.map Prod.fst
  triggerNames : "" ∉ c.triggers.map Prod.fst

theorem hasAction_iff_isSome {c : Config} {name : String} :
    c.HasAction name ↔ (c.action? name).isSome := by
  rw [HasAction, action?, List.lookup_isSome_iff, List.mem_map]
  exact exists_congr fun entry => and_congr_right fun _ => eq_comm.trans beq_iff_eq.symm

/-! ## What the checks of references say -/

variable {names : List String}

theorem mem_of_danglingTrigger_eq_none {triggers : List (String × TriggerDraft)}
    (h : danglingTrigger names triggers = none) :
    ∀ entry ∈ triggers, entry.2.action ≠ "" → entry.2.action ∈ names := by
  intro entry hentry hne
  have hnone := List.findSome?_eq_none_iff.1 h entry hentry
  simpa [hne] using hnone

theorem mem_of_danglingAction_eq_none {actions : List (String × GuardedAction)}
    (h : danglingAction names actions = none) :
    ∀ entry ∈ actions, ∀ name ∈ entry.2.action.embeddedNames, name ∈ names := by
  intro entry hentry name hname
  have hnone := List.findSome?_eq_none_iff.1 h entry hentry
  simpa using List.find?_eq_none.1 (Option.map_eq_none_iff.1 hnone) name hname

theorem mem_of_danglingTap_eq_none {notifications : List (String × Notification)}
    (h : danglingTap names notifications = none) :
    ∀ entry ∈ notifications, ∀ name ∈ entry.2.tapAction, name ∈ names := by
  intro entry hentry name hname
  have hnone := List.findSome?_eq_none_iff.1 h entry hentry
  simpa using Option.filter_eq_none_iff.1 (Option.map_eq_none_iff.1 hnone) name hname

theorem hasEmptyName_iff {α : Type} {table : List (String × α)} :
    hasEmptyName table ↔ "" ∈ table.map Prod.fst := by
  simp [hasEmptyName]

/-! ## Accepted configurations -/

/-- Each entry of a table without issues was written, and has passed its check. -/
theorem exists_of_mem_checkTable {α β : Type} {check : String → α → Except Issue β}
    {table : List (String × α)} {passed : List (String × β)}
    (h : checkTable check table = (passed, none)) {entry : String × β} (hentry : entry ∈ passed) :
    ∃ written, (entry.1, written) ∈ table ∧ check entry.1 written = .ok entry.2 := by
  have hall := checkTable_eq_none_iff.1 h
  clear h
  induction hall with
  | nil => simp at hentry
  | cons hfirst hrest ih =>
      obtain rfl | hentry := List.mem_cons.1 hentry
      · obtain ⟨hname, hcheck⟩ := hfirst
        rw [← hname]
        exact ⟨_, List.mem_cons_self, hcheck⟩
      · obtain ⟨written, hwritten, hcheck⟩ := ih hentry
        exact ⟨written, List.mem_cons_of_mem _ hwritten, hcheck⟩

/-- A table without issues has the names that are written. -/
theorem map_fst_of_checkTable {α β : Type} {check : String → α → Except Issue β}
    {table : List (String × α)} {passed : List (String × β)}
    (h : checkTable check table = (passed, none)) :
    table.map Prod.fst = passed.map Prod.fst := by
  have hnames := (checkTable_eq_none_iff.1 h).imp fun _ _ hentry => hentry.1
  exact List.forall₂_eq_eq_eq ▸ List.forall₂_map_left_iff.2 (List.forall₂_map_right_iff.2 hnames)

theorem closed_of_ofJson {engine : Engine} {bytes : List UInt8} {c : Config}
    (h : ofJson engine bytes = .ok c) : c.Closed := by
  obtain ⟨draft, -, hdraft⟩ := ofJson_eq_ok_iff.1 h
  have haccepted := accepted_of_ofDraft hdraft
  have hactions := map_fst_of_checkTable haccepted.actions
  have htriggers := map_fst_of_checkTable haccepted.triggers
  obtain ⟨hnoAction, hrest⟩ := not_or.1 haccepted.named
  obtain ⟨hnoTheme, hnoTrigger⟩ := not_or.1 hrest
  rw [hasEmptyName_iff] at hnoAction hnoTheme hnoTrigger
  -- A trigger is checked, and so is the reference that its draft makes.
  have htrigger : ∀ entry ∈ c.triggers, entry.2.event ≠ "" ∧ c.HasAction entry.2.action := by
    intro entry hentry
    obtain ⟨written, hwritten, hcheck⟩ := exists_of_mem_checkTable haccepted.triggers hentry
    rw [checkTrigger_eq_mapError, mapError_eq_ok_iff] at hcheck
    obtain ⟨hevent, haction, hsame⟩ := Trigger.of_ofDraft hcheck
    refine ⟨hevent, ?_⟩
    rw [HasAction, ← hactions, hsame]
    exact mem_of_danglingTrigger_eq_none haccepted.triggerTargets _ hwritten (hsame ▸ haction)
  exact {
    events := fun entry hentry => (htrigger entry hentry).1
    triggers := fun entry hentry => (htrigger entry hentry).2
    actions := mem_of_danglingAction_eq_none (hactions ▸ haccepted.actionTargets)
    taps := mem_of_danglingTap_eq_none (hactions ▸ haccepted.tapTargets)
    actionNames := hactions ▸ hnoAction
    themeNames := haccepted.themes ▸ hnoTheme
    triggerNames := htriggers ▸ hnoTrigger }

end Config

end Targeting
