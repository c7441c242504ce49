/-
# What the conditions of a configuration can ask for

Strict validation bounds a whole configuration. Each of its conditions stands at a place of its own,
under the source that was written there, and the list of all conditions has every one of them. Each
has a program, and whatever the world, a run of it reads no property but those of the catalog, those
that are derived from versions, the app's own and those that are declared, and calls no function
that is not built in.

The names of a program are checked after its dead branches are gone, so the bound is one on runs: a
name that only a dead branch has may be anything, and no run asks for it.
-/

import Targeting.Proofs.Config.Checked

namespace Targeting

open Condition (Engine Environment Invocation MayRead)
open Json (Written)

/-! ## The conditions of a configuration -/

/-- A configuration has a condition at a place. -/
inductive Config.Has (c : Config) : Place → Condition → Prop where
  | named {name : String} {condition : Condition} (h : (name, condition) ∈ c.conditions) :
    c.Has (.named name) condition
  | guard {name : String} {action : GuardedAction} {condition : Condition}
    (h : (name, action) ∈ c.actions) (hguard : action.guard = some condition) :
    c.Has (.guard name) condition
  | fork {name : String} {action : GuardedAction} {fork : Fork} (h : (name, action) ∈ c.actions)
    (hfork : action.action = .fork fork) : c.Has (.fork name) fork.condition
  | trigger {name : String} {trigger : Trigger} {condition : Condition}
    (h : (name, trigger) ∈ c.triggers) (hguard : trigger.guard = some condition) :
    c.Has (.trigger name) condition
  | schedule {id : String} {notification : Notification} {condition : Condition}
    (h : (id, notification) ∈ c.notifications)
    (hschedule : notification.scheduleCondition = some condition) : c.Has (.schedule id) condition
  | ideal {id : String} {notification : Notification} {ideal : IdealDelivery}
    (h : (id, notification) ∈ c.notifications) (hideal : notification.ideal = some ideal) :
    c.Has (.ideal id) ideal.condition

theorem Place.mem_holding {α : Type} {p place : Place} {found : Option α} {a : α} :
    (place, a) ∈ p.holding found ↔ place = p ∧ found = some a := by
  cases found <;> simp [holding, eq_comm]

theorem GuardedAction.mem_placed {name : String} {a : GuardedAction} {place : Place}
    {condition : Condition} : (place, condition) ∈ a.placed name ↔
      place = .guard name ∧ a.guard = some condition ∨
        place = .fork name ∧ ∃ fork, a.action = .fork fork ∧ fork.condition = condition := by
  rw [placed, List.mem_append, Place.mem_holding]
  cases a.action <;> simp [Place.mem_holding]

theorem Notification.mem_placed {id : String} {n : Notification} {place : Place}
    {condition : Condition} : (place, condition) ∈ n.placed id ↔
      place = .schedule id ∧ n.scheduleCondition = some condition ∨
        place = .ideal id ∧ ∃ ideal, n.ideal = some ideal ∧ ideal.condition = condition := by
  rw [placed, List.mem_append, Place.mem_holding, Place.mem_holding, Option.map_eq_some_iff]

namespace Config

variable {c : Config} {names : List String} {place : Place} {condition : Condition}

theorem mem_placed_iff_has : (place, condition) ∈ c.placed ↔ c.Has place condition := by
  simp only [placed, List.mem_append, List.mem_map, List.mem_flatMap, Prod.exists, Prod.mk.injEq,
    GuardedAction.mem_placed, Trigger.placed, Place.mem_holding, Notification.mem_placed]
  constructor
  · rintro (((⟨name, _, h, rfl, rfl⟩ | ⟨name, action, h, hat⟩) | ⟨name, trigger, h, rfl, hguard⟩) |
      ⟨id, notification, h, hat⟩)
    · exact .named h
    · obtain ⟨rfl, hguard⟩ | ⟨rfl, fork, hfork, rfl⟩ := hat
      · exact .guard h hguard
      · exact .fork h hfork
    · exact .trigger h hguard
    · obtain ⟨rfl, hschedule⟩ | ⟨rfl, ideal, hideal, rfl⟩ := hat
      · exact .schedule h hschedule
      · exact .ideal h hideal
  · rintro (h | ⟨h, hguard⟩ | ⟨h, hfork⟩ | ⟨h, hguard⟩ | ⟨h, hschedule⟩ | ⟨h, hideal⟩)
    · exact .inl (.inl (.inl ⟨_, _, h, rfl, rfl⟩))
    · exact .inl (.inl (.inr ⟨_, _, h, .inl ⟨rfl, hguard⟩⟩))
    · exact .inl (.inl (.inr ⟨_, _, h, .inr ⟨rfl, _, hfork, rfl⟩⟩))
    · exact .inl (.inr ⟨_, _, h, rfl, hguard⟩)
    · exact .inr ⟨_, _, h, .inl ⟨rfl, hschedule⟩⟩
    · exact .inr ⟨_, _, h, .inr ⟨rfl, _, hideal, rfl⟩⟩

/-- The list of all conditions has those that stand somewhere, and no others. -/
theorem mem_allConditions_iff : condition ∈ c.allConditions ↔ ∃ place, c.Has place condition := by
  rw [allConditions_eq, List.mem_map]
  constructor
  · rintro ⟨⟨place, _⟩, hplaced, rfl⟩
    exact ⟨place, mem_placed_iff_has.1 hplaced⟩
  · rintro ⟨place, hhas⟩
    exact ⟨_, mem_placed_iff_has.2 hhas, rfl⟩

end Config

/-! ## Confined conditions -/

namespace Condition

/-- A condition with a program that asks for nothing but declared properties and built-in functions,
whatever the world. -/
structure Confined (declared : List String) (c : Condition) : Prop where
  sound : c.degraded = none
  reads {σ : Type} (env : Environment σ) (s : σ) :
    ∀ name ∈ (c.evaluate env.recorded (s, .none)).2.2.reads, MayRead declared name
  calls {σ : Type} (env : Environment σ) (s : σ) :
    ∀ call ∈ (c.evaluate env.recorded (s, .none)).2.2.calls, Builtin.isName call.1
  invokes : ∃ program, c.program = .ok program ∧ ∀ {σ : Type} (env : Environment σ) (s : σ),
    ∀ call ∈ program.root.invocations env s, Builtin.isName call.1

/-- Strict validation confines what it accepts. -/
theorem Prepared.confined {names : List String} {source : String} {c : Condition}
    (h : Prepared ⟨.strict, names⟩ source c) : c.source = source ∧ c.Confined names := by
  obtain ⟨program, hcompile, rfl⟩ := h.of_strict
  obtain ⟨-, hnames⟩ := Engine.compile_eq_ok_iff.1 hcompile
  obtain ⟨hmethods, hinputs⟩ := Engine.checkNames_eq_ok_iff.1 (hnames rfl)
  refine ⟨rfl, rfl, fun env s name hname => ?_, fun env s call hcall => ?_, program, rfl,
    fun env s call hcall => ?_⟩
  · obtain ⟨hinput, hconstant⟩ :=
      Fields.mem_inputs_asked.1 ((program.within_asked env s).1 name hname)
    exact mayRead_of_declares (hinputs name hinput) hconstant
  · exact hmethods _ ((program.within_asked env s).2 call hcall)
  · have hself := Environment.AgreesOn.refl program.fields env
    exact hmethods _ ((program.invocations_of_agreesOn hself (s := s) rfl).2 call hcall)

end Condition

namespace Config

variable {c : Config} {names : List String}

/-- Under strict validation, what stands in the configuration is what was written, and confined. -/
theorem confined_of_ofDraft {draft : ConfigDraft} (h : ofDraft ⟨.strict, names⟩ draft = .ok c) :
    (∀ placed ∈ c.placed, placed.2.Confined names) ∧
      (c.placed.map fun placed => (placed.1, placed.2.source)) = draft.sources := by
  have hall : List.Forall₂ (fun placed written => placed.2.Confined names ∧
      (placed.1, placed.2.source) = written) c.placed draft.sources := by
    refine (forall₂_placed_of_ofDraft h).flip.imp ?_
    rintro placed written ⟨hplace, hprepared⟩
    obtain ⟨hsource, hconfined⟩ := hprepared.confined
    exact ⟨hconfined, Prod.ext hplace.symm hsource⟩
  obtain ⟨hconfined, hsources⟩ := (List.forall₂_and_left _ _).1 hall
  refine ⟨hconfined, ?_⟩
  rw [← List.forall₂_eq_eq_eq, List.forall₂_map_left_iff]
  exact hsources

/-- **Strict validation confines a configuration.** The list of its conditions is complete: it has
what stands at any place, and what stands there are the sources that were written. Every condition
of it has a program, which asks for no other properties than those of the catalog, derived ones, the
app's own and declared ones, and for no other functions than built-in ones. -/
theorem conditions_stay_confined {bytes : List UInt8}
    (h : ofJson ⟨.strict, names⟩ bytes = .ok c) :
    (∀ condition, condition ∈ c.allConditions ↔ ∃ place, c.Has place condition) ∧
      (∃ draft, (Written.parse? bytes).bind ConfigDraft.read? = some draft ∧
        ∀ place source, (place, source) ∈ draft.sources ↔
          ∃ condition, c.Has place condition ∧ condition.source = source) ∧
      ∀ condition ∈ c.allConditions, condition.Confined names := by
  obtain ⟨draft, hread, hdraft⟩ := ofJson_eq_ok_iff.1 h
  obtain ⟨hconfined, hsources⟩ := confined_of_ofDraft hdraft
  refine ⟨fun condition => mem_allConditions_iff, ⟨draft, hread, fun place source => ?_⟩,
    fun condition hcondition => ?_⟩
  · rw [← hsources]
    simp [mem_placed_iff_has]
  · obtain ⟨place, hhas⟩ := mem_allConditions_iff.1 hcondition
    exact hconfined _ (mem_placed_iff_has.2 hhas)

/-- A configuration with a named condition, a fork that has a guard, and a trigger whose guard has a
dead branch. -/
def prompts : List UInt8 :=
  ("[\"v1\",\"a\",null,null,null,null," ++
    "[\x7b\"ask\":[\"conditional_action\",\"dark_mode\",[\"custom_seats > 1\",\"ask\"]]\x7d]," ++
    "[\x7b\"opened\":[\"open\",\"ask\",\"true || nowhere\"]\x7d],[\x7b\"high\":\"tier > 2\"\x7d]]"
    ).toUTF8.toList

/-- All four conditions are found and confined. The name in the dead branch is not declared. -/
theorem conditions_of_prompts : ∃ c, ofJson ⟨.strict, ["tier"]⟩ prompts = .ok c ∧
    c.placed.map Prod.fst = [.named "high", .guard "ask", .fork "ask", .trigger "opened"] ∧
    ∀ condition ∈ c.allConditions, condition.Confined ["tier"] := by
  have hplaces : (ofJson ⟨.strict, ["tier"]⟩ prompts).toOption.map
      (fun c => c.placed.map Prod.fst) =
        some [.named "high", .guard "ask", .fork "ask", .trigger "opened"] := by
    decide +kernel
  cases hstrict : ofJson ⟨.strict, ["tier"]⟩ prompts with
  | error err => simp [hstrict, Except.toOption] at hplaces
  | ok c =>
      obtain ⟨-, -, hconfined⟩ := conditions_stay_confined hstrict
      exact ⟨c, rfl, by simpa [hstrict, Except.toOption] using hplaces, hconfined⟩

end Config

end Targeting
