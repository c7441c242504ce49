/-
# Every action is found

A client that has started with an accepted configuration finds every action that the
configuration leads to, through a trigger, a fork or a tap on a notification. The
configuration is closed, so an action that is there only runs actions that are there; and no
event or action takes the configuration away.
-/

import Targeting.Proofs.Client.Run
import Targeting.Proofs.Config.Closed

namespace Targeting

variable {μ : Type}

namespace Config

variable {c : Config}

/-- The entry of a named action. -/
theorem mem_of_action? {name : String} {action : GuardedAction} (h : action ∈ c.action? name) :
    (name, action) ∈ c.actions := by
  obtain ⟨before, after, hactions, -⟩ := List.lookup_eq_some_iff.1 h
  rw [hactions]
  exact List.mem_append_right _ List.mem_cons_self

namespace Closed

variable (hclosed : c.Closed)
include hclosed

theorem hasAction_of_trigger {event : String} {trigger : Trigger}
    (h : trigger ∈ c.triggersFor event) : c.HasAction trigger.action := by
  obtain ⟨entry, hentry, rfl⟩ := List.mem_map.1 (List.mem_filter.1 h).1
  exact hclosed.triggers entry hentry

theorem hasAction_of_fork {name : String} {action : GuardedAction}
    (haction : action ∈ c.action? name) {fork : Fork} (hfork : action.action = .fork fork)
    {passed : Bool} {target : String} (htarget : target ∈ fork.target passed) :
    c.HasAction target := by
  apply hclosed.actions _ (mem_of_action? haction)
  rw [hfork]
  exact fork.mem_embeddedNames htarget

theorem hasAction_of_tap {n : Notification} (hn : n ∈ c.allNotifications) {name : String}
    (hname : name ∈ n.tapAction) : c.HasAction name := by
  obtain ⟨entry, hentry, rfl⟩ := List.mem_map.1 hn
  exact hclosed.taps entry hentry name hname

end Closed

end Config

namespace Client

/-- An operation does not end because there is no action of a name. -/
def Finds (ended : Option Outcome) : Prop :=
  ∀ name, ended ≠ some (.error (.notFound .action name))

theorem lenient_finds : Lenient Finds where
  ok := nofun
  condition _ := nofun
  event _ := nofun
  store _ := nofun
  action _ _ := nofun
  notStarted := nofun

/-- By induction on the nested steps, for events and actions at once. -/
theorem keeps_finds {host : Host μ} {c : Config} (hclosed : c.Closed) {k : Client}
    (hk : k.config = some c) (steps : Nat) :
    (∀ event, Act.Keeps standing k Finds (process host steps event)) ∧
      ∀ name, c.HasAction name → Act.Keeps standing k Finds (perform host steps name) := by
  induction steps with
  | zero => exact ⟨fun _ => .failure nofun, fun _ _ => .failure nofun⟩
  | succ steps ih =>
      obtain ⟨hprocess, hperform⟩ := ih
      constructor
      · intro event
        refine process_keeps lenient_finds (fun _ => hprocess _) fun config hconfig => ?_
        obtain rfl := Option.mem_unique hconfig hk
        exact fun trigger htrigger => hperform _ (hclosed.hasAction_of_trigger htrigger)
      · intro name hname
        refine perform_keeps lenient_finds ?_ ?_ fun _ _ _ _ _ _ => hprocess _
        · intro config hconfig hmissing
          obtain rfl := Option.mem_unique hconfig hk
          rw [Config.hasAction_iff_isSome, hmissing] at hname
          cases hname
        · intro config hconfig guarded hguarded fork hfork passed target htarget
          obtain rfl := Option.mem_unique hconfig hk
          exact hperform _ (hclosed.hasAction_of_fork hguarded hfork htarget)

/-- An accepted configuration is closed. So a client that has started with it finds every action
that is run for an event, for an action of the configuration and for a tap on a notification, and
has still started with it afterwards. -/
theorem finds_every_action {engine : Condition.Engine} {bytes : List UInt8} {c : Config}
    (h : Config.ofJson engine bytes = .ok c) :
    c.Closed ∧ ∀ {μ : Type} (host : Host μ) (steps : Nat),
      (∀ event, Act.Keeps active (some c) Finds (process host steps event)) ∧
      (∀ name, c.HasAction name → Act.Keeps active (some c) Finds (perform host steps name)) ∧
      ∀ id, Act.Keeps active (some c) Finds (notificationTapped host steps id) := by
  have hclosed := Config.closed_of_ofJson h
  refine ⟨hclosed, fun host steps => ?_⟩
  have hperform : ∀ name, c.HasAction name →
      Act.Keeps active (some c) Finds (perform host steps name) :=
    fun name hname => keeps_active fun k hk => (keeps_finds hclosed hk steps).2 name hname
  refine ⟨fun event => keeps_active fun k hk => (keeps_finds hclosed hk steps).1 event, hperform,
    fun id => .step .current fun client hclient => ?_⟩
  rw [(active_eq_some_iff.1 hclient).2]
  dsimp only
  split
  case h_1 action haction =>
    obtain ⟨n, hn, htap⟩ := Option.bind_eq_some_iff.1 haction
    exact hperform action (hclosed.hasAction_of_tap (List.mem_of_find?_eq_some hn) htap)
  case h_2 => exact .pure lenient_finds.ok

/-- A configuration with a trigger for a fork that leads to a link, and a notification that leads to
the fork. -/
def survey : List UInt8 :=
  ("[\"v1\",\"a\",null,null,null,null," ++
    "[\x7b\"ask\":[\"conditional_action\",null,[\"true\",\"go\"]],\"go\":[\"link\"]\x7d]," ++
    "[\x7b\"t\":[\"app_start\",\"ask\"]\x7d],null,\x7b\"n\":\x7b\"title\":\"t\"," ++
    "\"deliveryTime\":\x7b\"timestamp\":0\x7d,\"tapActionName\":\"ask\"\x7d\x7d]").toUTF8.toList

/-- The survey is found when the app starts, when it is asked for, and when the notification is
tapped. -/
theorem survey_is_found : ∃ c, Config.ofJson ⟨.lenient, []⟩ survey = .ok c ∧ c.HasAction "ask" ∧
    c.triggers.length = 1 ∧ c.notifications.length = 1 ∧ c.Closed ∧
      let w : World Unit := ⟨running c, ()⟩
      Finds ((process .quiet 9 (.builtIn .appStart)).run w).1 ∧
        Finds ((perform .quiet 9 "ask").run w).1 ∧
        Finds ((notificationTapped .quiet 9 (Notification.uniqueIdStart ++ "n")).run w).1 := by
  have hread : (Config.ofJson ⟨.lenient, []⟩ survey).toOption.map (fun c =>
      (c.actions.map Prod.fst, c.triggers.length, c.notifications.length)) =
        some (["ask", "go"], 1, 1) := by
    decide +kernel
  cases h : Config.ofJson ⟨.lenient, []⟩ survey with
  | error err => simp [h, Except.toOption] at hread
  | ok c =>
      simp only [h, Except.toOption, Option.map_some, Option.some.injEq, Prod.mk.injEq] at hread
      obtain ⟨hactions, htriggers, hnotifications⟩ := hread
      have hask : c.HasAction "ask" := by simp [Config.HasAction, hactions]
      obtain ⟨hclosed, hfound⟩ := finds_every_action h
      obtain ⟨hprocess, hperform, htapped⟩ := hfound Host.quiet 9
      exact ⟨c, rfl, hask, htriggers, hnotifications, hclosed, (hprocess _ _ rfl).2,
        (hperform _ hask _ rfl).2, (htapped _ _ rfl).2⟩

end Client

end Targeting
