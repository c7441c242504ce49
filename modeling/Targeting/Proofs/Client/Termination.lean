/-
# When events and actions come to an end

An event performs the actions of its triggers. An action is recorded as an event, and a fork
runs another action before that. So what a configuration makes of an event or an action is a
walk through a graph of deeds. If no deed on the way leads back to itself, the client is done
within as many nested steps as the longest walk has, whatever the host does.

The check of a configuration looks for missing actions, not for circles. A fork without
guard whose condition is always true may run itself, and performing it has no end.
-/

import Mathlib.Data.Fintype.Card
import Mathlib.Data.Set.Finite.List
import Mathlib.Logic.Relation
import Targeting.Proofs.Client.Run

namespace Targeting

open Relation (ReflTransGen TransGen)

variable {μ : Type}

/-- What a client can be busy with. -/
inductive Deed where
  | action (name : String)
  | event (event : Event)
  deriving DecidableEq, Repr

/-- The actions that a fork chooses from. -/
def Action.branches : Action → List Deed
  | .fork f => (fork f).embeddedNames.map Deed.action
  | _ => []

/-- The events that record an action. -/
def Deed.recordings (name : String) : List Deed :=
  [Client.actionEvent name (.ok ()), Client.actionEvent name (.error .notStarted)].filterMap
    fun event => (Event.ofApp event).toOption.map Deed.event

theorem Action.mem_branches {fork : Fork} {passed : Bool} {target : String}
    (h : target ∈ fork.target passed) : Deed.action target ∈ (Action.fork fork).branches :=
  List.mem_map_of_mem (fork.mem_embeddedNames h)

theorem Deed.mem_recordings {name : String} {outcome : Outcome} {event : Event}
    (h : Event.ofApp (Client.actionEvent name outcome) = .ok event) :
    Deed.event event ∈ Deed.recordings name := by
  refine List.mem_filterMap.2 ⟨Client.actionEvent name outcome, ?_, by rw [h]; rfl⟩
  cases outcome with
  | ok => exact List.mem_cons_self
  | error err => exact List.mem_cons_of_mem _ List.mem_cons_self

/-! ## The graph of a configuration -/

namespace Config

/-- What a deed sets off, one nested step further. -/
def followers (c : Config) : Deed → List Deed
  | .action name =>
    (c.action? name).elim [] fun guarded => guarded.action.branches ++ Deed.recordings name
  | .event event =>
    (if event = .builtIn .enteredForeground then [.event (.builtIn .sessionStart)] else []) ++
      (c.triggersFor event.name).map fun trigger => .action trigger.action

/-- A deed sets off another one. -/
def SetsOff (c : Config) (d next : Deed) : Prop := next ∈ c.followers d

/-- No deed that a deed leads to leads back to itself. -/
def IsAcyclic (c : Config) (d : Deed) : Prop :=
  ∀ reached, ReflTransGen c.SetsOff d reached → ¬ TransGen c.SetsOff reached reached

/-- Whether all walks from a deed have fewer steps than a number. -/
def settlesWithin (c : Config) : Nat → Deed → Bool
  | 0, _ => false
  | steps + 1, d => (c.followers d).all (c.settlesWithin steps)

variable {c : Config}

theorem settlesWithin_succ {steps : Nat} {d : Deed} :
    c.settlesWithin (steps + 1) d ↔ ∀ next, c.SetsOff d next → c.settlesWithin steps next := by
  rw [settlesWithin, List.all_eq_true]
  rfl

theorem settlesWithin_mono {steps more : Nat} (hle : steps ≤ more) {d : Deed}
    (h : c.settlesWithin steps d) : c.settlesWithin more d := by
  induction more generalizing steps d with
  | zero =>
      obtain rfl := Nat.le_zero.1 hle
      exact h
  | succ more ih =>
      cases steps with
      | zero => cases h
      | succ steps =>
          rw [settlesWithin_succ] at h ⊢
          exact fun next hnext => ih (Nat.le_of_succ_le_succ hle) (h next hnext)

/-- A number that does for each deed of a list. -/
theorem exists_settlesWithin_forall {deeds : List Deed}
    (h : ∀ d ∈ deeds, ∃ steps, c.settlesWithin steps d) :
    ∃ steps, ∀ d ∈ deeds, c.settlesWithin steps d := by
  induction deeds with
  | nil => exact ⟨0, by simp⟩
  | cons d rest ih =>
      rw [List.forall_mem_cons] at h
      obtain ⟨⟨first, hfirst⟩, hrest⟩ := h
      obtain ⟨others, hothers⟩ := ih hrest
      refine ⟨max first others, List.forall_mem_cons.2 ⟨?_, fun d hd => ?_⟩⟩
      · exact settlesWithin_mono (Nat.le_max_left ..) hfirst
      · exact settlesWithin_mono (Nat.le_max_right ..) (hothers d hd)

/-! ### Finitely many deeds -/

/-- Everything that some deed sets off. -/
def deeds (c : Config) : List Deed :=
  .event (.builtIn .sessionStart) ::
    (c.triggers.map (fun entry => Deed.action entry.2.action) ++
      c.actions.flatMap fun entry => entry.2.action.branches ++ Deed.recordings entry.1)

theorem mem_deeds_of_setsOff {d next : Deed} (h : c.SetsOff d next) : next ∈ c.deeds := by
  cases d with
  | action name =>
      rw [SetsOff, followers] at h
      cases haction : c.action? name with
      | none => simp [haction] at h
      | some guarded =>
          rw [haction] at h
          obtain ⟨before, after, hactions, -⟩ := List.lookup_eq_some_iff.1 haction
          have hentry : (name, guarded) ∈ c.actions := by simp [hactions]
          exact List.mem_cons_of_mem _
            (List.mem_append_right _ (List.mem_flatMap.2 ⟨_, hentry, h⟩))
  | event event =>
      obtain hsession | htrigger := List.mem_append.1 h
      · split at hsession
        · exact List.mem_singleton.1 hsession ▸ List.mem_cons_self
        · cases hsession
      · obtain ⟨trigger, hfor, rfl⟩ := List.mem_map.1 htrigger
        obtain ⟨entry, hentry, rfl⟩ := List.mem_map.1 (List.mem_filter.1 hfor).1
        exact List.mem_cons_of_mem _
          (List.mem_append_left _ (List.mem_map.2 ⟨entry, hentry, rfl⟩))

theorem finite_setOf_reachable (c : Config) (d : Deed) :
    {reached | ReflTransGen c.SetsOff d reached}.Finite := by
  refine (List.finite_toSet (d :: c.deeds)).subset fun reached hreached => ?_
  obtain rfl | ⟨_, -, hlast⟩ := ReflTransGen.cases_tail hreached
  · exact List.mem_cons_self
  · exact List.mem_cons_of_mem _ (mem_deeds_of_setsOff hlast)

/-- By induction along the graph, which is well-founded where it is finite and has no circles. -/
theorem IsAcyclic.exists_settlesWithin {d : Deed} (h : c.IsAcyclic d) :
    ∃ steps, c.settlesWithin steps d := by
  let Reached := {reached // ReflTransGen c.SetsOff d reached}
  let before (a b : Reached) : Prop := TransGen c.SetsOff b.1 a.1
  have : Finite Reached := (finite_setOf_reachable c d).to_subtype
  have : IsTrans Reached before := ⟨fun _ _ _ hab hbc => hbc.trans hab⟩
  have : Std.Irrefl before := ⟨fun a => h a.1 a.2⟩
  have hwf : WellFounded before := Finite.wellFounded_of_trans_of_irrefl before
  suffices hall : ∀ a : Reached, ∃ steps, c.settlesWithin steps a.1 from hall ⟨d, .refl⟩
  intro a
  induction a using hwf.induction with
  | h a ih =>
      have hnext : ∀ next ∈ c.followers a.1, ∃ steps, c.settlesWithin steps next :=
        fun next hnext => ih ⟨next, a.2.tail hnext⟩ (.single hnext)
      obtain ⟨steps, hsteps⟩ := exists_settlesWithin_forall hnext
      exact ⟨steps + 1, settlesWithin_succ.2 hsteps⟩

/-- No walk from a deed in a circle has an end. -/
theorem not_transGen_of_settlesWithin {steps : Nat} {d : Deed} (h : c.settlesWithin steps d) :
    ¬ TransGen c.SetsOff d d := by
  induction steps generalizing d with
  | zero => cases h
  | succ steps ih =>
      intro hcircle
      obtain ⟨next, hfirst, hback⟩ := TransGen.head'_iff.1 hcircle
      exact ih (settlesWithin_succ.1 h next hfirst) (TransGen.tail' hback hfirst)

theorem isAcyclic_of_settlesWithin {steps : Nat} {d : Deed} (h : c.settlesWithin steps d) :
    c.IsAcyclic d := by
  intro reached hreached
  suffices hsettles : c.settlesWithin steps reached from not_transGen_of_settlesWithin hsettles
  induction hreached with
  | refl => exact h
  | tail _ hlast ih =>
      cases steps with
      | zero => cases h
      | succ steps => exact settlesWithin_mono (Nat.le_succ steps) (settlesWithin_succ.1 ih _ hlast)

end Config

/-! ## Walks without circles -/

/-- Given enough nested steps, an operation has an answer, and more of them change neither the
answer nor the world that it leaves. -/
def Act.Finishes {α : Type} (m : Nat → Act μ α) (enough : Nat) (w : World μ) : Prop :=
  ∃ answer w', ∀ steps ≥ enough, (m steps).run w = (some answer, w')

namespace Client

/-- Do a deed. -/
def carryOut (host : Host μ) (steps : Nat) : Deed → Act μ Outcome
  | .action name => perform host steps name
  | .event event => process host steps event

theorem lenient_isSome : Lenient (fun ended => ended.isSome) :=
  ⟨rfl, fun _ => rfl, fun _ => rfl, fun _ => rfl, fun _ _ => rfl, rfl⟩

theorem carryOut_keeps {host : Host μ} {c : Config} {k : Client} (hk : k.config = some c)
    {steps : Nat} {d : Deed} (h : c.settlesWithin steps d) :
    Act.Keeps standing k (fun ended => ended.isSome) (carryOut host steps d) := by
  induction steps generalizing d with
  | zero => cases h
  | succ steps ih =>
      have hnext (next : Deed) (hmem : next ∈ c.followers d) :
          Act.Keeps standing k (fun ended => ended.isSome) (carryOut host steps next) :=
        ih (Config.settlesWithin_succ.1 h next hmem)
      cases d with
      | action name =>
          refine perform_keeps lenient_isSome (fun _ _ _ => rfl) ?_ ?_
          · intro config hconfig guarded hguarded fork hfork passed target htarget
            obtain rfl := Option.mem_unique hconfig hk
            apply hnext (.action target)
            rw [Config.followers, Option.mem_def.1 hguarded]
            exact List.mem_append_left _ (hfork ▸ Action.mem_branches htarget)
          · intro config hconfig hthere outcome event hevent
            obtain rfl := Option.mem_unique hconfig hk
            obtain ⟨guarded, hguarded⟩ := Option.isSome_iff_exists.1 hthere
            apply hnext (.event event)
            rw [Config.followers, hguarded]
            exact List.mem_append_right _ (Deed.mem_recordings hevent)
      | event event =>
          refine process_keeps lenient_isSome (fun hevent => ?_) fun config hconfig => ?_
          · apply hnext (.event (.builtIn .sessionStart))
            rw [Config.followers, if_pos hevent]
            exact List.mem_append_left _ List.mem_cons_self
          · obtain rfl := Option.mem_unique hconfig hk
            intro trigger htrigger
            apply hnext (.action trigger.action)
            exact List.mem_append_right _ (List.mem_map.2 ⟨trigger, htrigger, rfl⟩)

theorem carryOut_extends {host : Host μ} {steps : Nat} (d : Deed) :
    Act.Extends (carryOut host (steps + 1) d) (carryOut host steps d) := by
  cases d with
  | action name => exact (extends_succ steps).2 name
  | event event => exact (extends_succ steps).1 event

/-- What has an answer has finished. -/
theorem finishes_of_settlesWithin {host : Host μ} {c : Config} {enough : Nat} {d : Deed}
    (h : c.settlesWithin enough d) {w : World μ} (hw : w.client.config = some c) :
    Act.Finishes (fun steps => carryOut host steps d) enough w := by
  have hconfig : w.client.standing.config = some c := hw
  obtain ⟨-, hsome⟩ : _ ∧ ((carryOut host enough d).run w).1.isSome :=
    carryOut_keeps hconfig h w rfl
  obtain ⟨answer, hanswer⟩ := Option.isSome_iff_exists.1 hsome
  refine ⟨answer, ((carryOut host enough d).run w).2, fun steps hsteps => ?_⟩
  induction steps, hsteps using Nat.le_induction with
  | base => exact Prod.ext hanswer rfl
  | succ steps _ ih => exact carryOut_extends d w answer _ ih

end Client

/-! ## Walks in a circle -/

/-- A condition is true in every world. -/
def Condition.IsTrue (condition : Condition) : Prop :=
  ∀ {σ : Type} (env : Environment σ) (s : σ), (condition.evaluate env s).1 = .ok true

theorem Condition.isTrue_of_program {condition : Condition}
    (h : condition.program = .ok ⟨.bool true⟩) : condition.IsTrue := by
  intro σ env s
  have hdegraded : condition.degraded = none := by
    rw [program] at h
    split at h
    · cases h
    · assumption
  rw [evaluate, hdegraded, h]
  rfl

namespace Config

variable {c : Config}

/-- The action of a name is a fork without guard that runs the same action in every world. -/
def AlwaysRuns (c : Config) (name next : String) : Prop :=
  ∃ fork, c.action? name = some ⟨none, .fork fork⟩ ∧ fork.passed = next ∧ fork.condition.IsTrue

/-- The action that a fork without guard runs, if its condition is just `true`. -/
def next? (c : Config) (name : String) : Option String :=
  match c.action? name with
  | some ⟨none, .fork fork⟩ =>
    match fork.condition.program with
    | .ok ⟨.bool true⟩ => some fork.passed
    | _ => none
  | _ => none

theorem alwaysRuns_of_next? {name next : String} (h : c.next? name = some next) :
    c.AlwaysRuns name next := by
  unfold next? at h
  split at h
  case h_1 fork haction =>
    split at h
    case h_1 hprogram =>
      exact ⟨fork, haction, Option.some.inj h, Condition.isTrue_of_program hprogram⟩
    case h_2 => cases h
  case h_2 => cases h

end Config

namespace Client

variable {host : Host μ} {c : Config}

theorem evaluate_keeps_of_isTrue {k : Option Config} {condition : Condition}
    (h : condition.IsTrue) :
    Step.Keeps active k (fun result => result = .ok true) (evaluate host condition) :=
  fun w hw => ⟨hw, h (w.client.environment host) (w.client.store, w.memory)⟩

/-- By induction on the nested steps: each action of the ring uses one up for the next. -/
theorem perform_keeps_of_ring {ring : String → Prop}
    (hring : ∀ name, ring name → ∃ next, ring next ∧ c.AlwaysRuns name next) {steps : Nat}
    {name : String} (hname : ring name) :
    Act.Keeps active (some c) (fun ended => ended = none) (perform host steps name) := by
  induction steps generalizing name with
  | zero => exact .failure rfl
  | succ steps ih =>
      obtain ⟨_, hnext, fork, haction, rfl, htrue⟩ := hring name hname
      have hallows : Step.Keeps active (some c) (fun allowed => allowed = .ok true)
          (allows host none) := .pure rfl
      have hruns : Act.Keeps active (some c) (fun ended => ended = none)
          (runAction host (perform host steps) name (.fork fork)) := by
        refine .step (evaluate_keeps_of_isTrue htrue) ?_
        rintro _ rfl
        exact ih hnext
      rw [perform]
      refine .step .current fun client hclient => ?_
      obtain ⟨hstarted, hconfig⟩ := active_eq_some_iff.1 hclient
      rw [hstarted, hconfig]
      dsimp only
      rw [haction]
      refine .step hallows ?_
      rintro _ rfl
      refine hruns.bind (fun _ => rfl) fun outcome houtcome => ?_
      cases houtcome

/-- Performing an action and sending an event come to an end, within a number of nested steps
that only depends on the configuration, if no event or action on the way leads back to itself;
whatever the history, the world and the host are like. Nothing else makes sure of that: in a ring
of forks each of which always runs the next one, performing any of them has no end. -/
theorem finishes_of_isAcyclic (c : Config) :
    (∀ name, c.IsAcyclic (.action name) → ∃ enough, ∀ {μ : Type} (host : Host μ) (w : World μ),
      w.client.config = some c →
        Act.Finishes (fun steps => perform host steps name) enough w) ∧
    (∀ name, (∀ event, Event.ofApp name = .ok event → c.IsAcyclic (.event event)) →
      ∃ enough, ∀ {μ : Type} (host : Host μ) (w : World μ), w.client.config = some c →
        Act.Finishes (fun steps => sendEvent host steps name) enough w) ∧
    ∀ ring : String → Prop, (∀ name, ring name → ∃ next, ring next ∧ c.AlwaysRuns name next) →
      ∀ name, ring name → ∀ {μ : Type} (host : Host μ) (steps : Nat) (w : World μ),
        w.client.active = some c → ((perform host steps name).run w).1 = none := by
  refine ⟨fun name h => ?_, fun name h => ?_, fun ring hring name hname μ host steps w hw => ?_⟩
  · obtain ⟨enough, henough⟩ := h.exists_settlesWithin
    exact ⟨enough, fun host w hw => finishes_of_settlesWithin henough hw⟩
  · cases hevent : Event.ofApp name with
    | error err =>
        refine ⟨0, fun host w _ => ⟨.error (.event err), w, fun steps _ => ?_⟩⟩
        simp only [sendEvent, sendThrough, hevent]
        rfl
    | ok event =>
        obtain ⟨enough, henough⟩ := (h event hevent).exists_settlesWithin
        refine ⟨enough, fun host w hw => ?_⟩
        simp only [sendEvent, sendThrough, hevent]
        exact finishes_of_settlesWithin henough hw
  · exact (perform_keeps_of_ring hring hname w hw).2

/-- A configuration with a fork that runs itself, and a link. -/
def circle : List UInt8 :=
  ("[\"v1\",\"a\",null,null,null,null,[\x7b\"again\":" ++
    "[\"conditional_action\",null,[\"true\",\"again\"]],\"hello\":[\"link\"]\x7d]]").toUTF8.toList

/-- Strict validation accepts the circle. The link can be performed; the fork has no end. -/
theorem circle_is_accepted : ∃ c, Config.ofJson ⟨.strict, []⟩ circle = .ok c ∧
    c.IsAcyclic (.action "hello") ∧ c.AlwaysRuns "again" "again" ∧
      let w : World Unit := ⟨running c, ()⟩
      (∃ enough, Act.Finishes (fun steps => perform .quiet steps "hello") enough w) ∧
        ∀ steps, ((perform .quiet steps "again").run w).1 = none := by
  have hread : (Config.ofJson ⟨.strict, []⟩ circle).toOption.map (fun c =>
      (c.settlesWithin 3 (.action "hello"), c.next? "again")) = some (true, some "again") := by
    decide +kernel
  cases h : Config.ofJson ⟨.strict, []⟩ circle with
  | error err => simp [h, Except.toOption] at hread
  | ok c =>
      simp only [h, Except.toOption, Option.map_some, Option.some.injEq, Prod.mk.injEq] at hread
      obtain ⟨hsettles, hnext⟩ := hread
      have hacyclic := Config.isAcyclic_of_settlesWithin hsettles
      have hagain := Config.alwaysRuns_of_next? hnext
      obtain ⟨hperform, -, hring⟩ := finishes_of_isAcyclic c
      obtain ⟨enough, hfinishes⟩ := hperform "hello" hacyclic
      have hself : ∀ name, name = "again" → ∃ next, next = "again" ∧ c.AlwaysRuns name next := by
        rintro _ rfl
        exact ⟨"again", rfl, hagain⟩
      exact ⟨c, rfl, hacyclic, hagain, ⟨enough, hfinishes .quiet _ rfl⟩,
        fun steps => hring (· = "again") hself "again" rfl .quiet steps _ rfl⟩

end Client

end Targeting
