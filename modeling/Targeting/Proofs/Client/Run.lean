/-
# Laws of operations

An operation of a client goes from one world to another. Most of them touch little: the
events and actions that a client goes through change its history, the start of its
session and its plan, and nothing else. `standing` is all the rest, and `Keeps` says of
an operation that it leaves a part of the client as it is and answers as promised, from
every world. The rules for sequences carry such promises from the steps of an operation
to the operation.

The number of nested steps that an operation is given does not matter once it suffices.
-/

import Targeting.Client.Operations

namespace Targeting

variable {μ α β γ δ : Type}

/-- What the events and actions of a client leave alone: everything but the history, the start
of the session and the plan. -/
def Client.standing (c : Client) : Client :=
  { c with store := ⟨0, .empty, .started⟩, sessionStart := none, plan := none }

theorem Client.config_of_standing {c k : Client} (h : c.standing = k) : c.config = k.config := by
  rw [← h]
  rfl

/-- The configuration of a client that has started. -/
def Client.active (c : Client) : Option Config := if c.isStarted then c.config else none

theorem Client.active_eq_some_iff {c : Client} {config : Config} :
    c.active = some config ↔ c.isStarted ∧ c.config = some config := by
  rw [active]
  split <;> simp [*]

/-- What a fork may run are names that the action refers to. -/
theorem Fork.mem_embeddedNames {fork : Fork} {passed : Bool} {target : String}
    (h : target ∈ fork.target passed) : target ∈ (Action.fork fork).embeddedNames := by
  rw [Action.embeddedNames]
  cases passed with
  | true =>
      cases h
      exact List.mem_cons_self
  | false => exact List.mem_cons_of_mem _ (Option.mem_toList.2 h)

/-! ## Steps -/

namespace Step

theorem bind_apply (m : Step μ α) (next : α → Step μ β) (w : World μ) :
    (m >>= next) w = next (m w).1 (m w).2 := rfl

theorem pure_apply (a : α) (w : World μ) : (pure a : Step μ α) w = (a, w) := rfl

theorem current_apply (w : World μ) : (Client.current : Step μ Client) w = (w.client, w) := rfl

theorem change_apply (f : Client → Client) (w : World μ) :
    (Client.change f : Step μ Unit) w = ((), { w with client := f w.client }) := rfl

/-- From every world whose client shows `k`, a step answers as promised, and its client shows `k`
afterwards. -/
def Keeps (view : Client → β) (k : β) (answers : α → Prop) (m : Step μ α) : Prop :=
  ∀ w : World μ, view w.client = k → view (m w).2.client = k ∧ answers (m w).1

namespace Keeps

variable {view : Client → β} {k : β} {answers answers' : α → Prop} {m : Step μ α}

theorem mono (hm : Keeps view k answers m) (h : ∀ a, answers a → answers' a) :
    Keeps view k answers' m :=
  fun w hw => ⟨(hm w hw).1, h _ (hm w hw).2⟩

theorem pure {a : α} (ha : answers a) : Keeps view k answers (Pure.pure a : Step μ α) :=
  fun _ hw => ⟨hw, ha⟩

/-- The second part has to cope with every answer of the first. -/
theorem bind {next : α → Step μ γ} {ends : γ → Prop} (hm : Keeps view k answers m)
    (hnext : ∀ a, answers a → Keeps view k ends (next a)) : Keeps view k ends (m >>= next) := by
  intro w hw
  obtain ⟨hview, hanswer⟩ := hm w hw
  exact hnext _ hanswer _ hview

theorem current : Keeps view k (fun c => view c = k) (Client.current : Step μ Client) :=
  fun _ hw => ⟨hw, hw⟩

theorem change {f : Client → Client} (hf : ∀ c, view (f c) = view c) :
    Keeps view k (fun _ => True) (Client.change f : Step μ Unit) :=
  fun w hw => ⟨(hf w.client).trans hw, trivial⟩

theorem ask (question : μ → α × μ) : Keeps view k (fun _ => True) (Client.ask question) :=
  fun _ hw => ⟨hw, trivial⟩

theorem inSurroundings (hstore : ∀ c store, view { c with store := store } = view c)
    (f : Client → Surroundings μ → α × Surroundings μ) :
    Keeps view k (fun _ => True) (Client.inSurroundings f) :=
  fun w hw => ⟨(hstore w.client _).trans hw, trivial⟩

/-- What the standing parts determine is kept with them. -/
theorem through {view' : Client → γ} {k' : γ} (hview' : ∀ c, view' (Client.standing c) = view' c)
    (hm : ∀ k, view' k = k' → Keeps Client.standing k answers m) : Keeps view' k' answers m := by
  intro w hw
  obtain ⟨hstanding, hanswer⟩ := hm _ ((hview' _).trans hw) w rfl
  refine ⟨?_, hanswer⟩
  rw [← hview', hstanding, hview', hw]

end Keeps

end Step

/-! ## Operations -/

namespace Act

/-- A sequence runs its second part from the world that the first part left, or has no answer
where the first part had none. -/
theorem run_bind_apply (first : Act μ α) (next : α → Act μ β) (w : World μ) :
    (first >>= next).run w =
      match first.run w with
      | (some a, w') => (next a).run w'
      | (none, w') => (none, w') := by
  rw [OptionT.run_bind]
  change (match first.run w with
    | (ended, w') => (ended.elim (Pure.pure none) fun a => (next a).run) w') = _
  rcases first.run w with ⟨_ | a, w'⟩ <;> rfl

/-- A step always has an answer. -/
theorem run_step_apply (first : Step μ α) (next : α → Act μ β) (w : World μ) :
    (liftM first >>= next).run w = (next (first w).1).run (first w).2 := rfl

/-- From every world whose client shows `k`, an operation ends as promised, with an answer or for
want of steps, and its client shows `k` afterwards. -/
def Keeps (view : Client → β) (k : β) (ends : Option α → Prop) (m : Act μ α) : Prop :=
  Step.Keeps view k ends m.run

namespace Keeps

variable {view : Client → β} {k : β} {ends : Option α → Prop} {m : Act μ α}

theorem pure {a : α} (ha : ends (some a)) : Keeps view k ends (Pure.pure a : Act μ α) :=
  Step.Keeps.pure ha

theorem failure (hnone : ends none) : Keeps view k ends (failure : Act μ α) :=
  Step.Keeps.pure hnone

/-- The second part has to cope with every answer of the first, and the promise with the first
part running out of steps. -/
theorem bind {next : α → Act μ γ} {ends' : Option γ → Prop} (hm : Keeps view k ends m)
    (hnone : ends none → ends' none)
    (hnext : ∀ a, ends (some a) → Keeps view k ends' (next a)) :
    Keeps view k ends' (m >>= next) := by
  intro w hw
  obtain ⟨hview, hended⟩ := hm w hw
  rw [run_bind_apply]
  rcases hrun : m.run w with ⟨_ | a, w'⟩ <;> rw [hrun] at hview hended
  · exact ⟨hview, hnone hended⟩
  · exact hnext a hended w' hview

/-- A step does not run out of steps. -/
theorem step {m : Step μ α} {answers : α → Prop} {next : α → Act μ γ} {ends' : Option γ → Prop}
    (hm : Step.Keeps view k answers m) (hnext : ∀ a, answers a → Keeps view k ends' (next a)) :
    Keeps view k ends' (liftM m >>= next) := by
  intro w hw
  obtain ⟨hview, hanswer⟩ := hm w hw
  exact hnext _ hanswer _ hview

theorem lift {m : Step μ α} (hm : Step.Keeps view k (fun a => ends (some a)) m) :
    Keeps view k ends (liftM m : Act μ α) :=
  fun w hw => hm w hw

end Keeps

/-- Whatever an operation answers, another one answers the same from the same world and leaves
the same world. -/
def Extends (longer shorter : Act μ α) : Prop :=
  ∀ w a w', shorter.run w = (some a, w') → longer.run w = (some a, w')

namespace Extends

theorem refl (m : Act μ α) : Extends m m := fun _ _ _ h => h

theorem failure (m : Act μ α) : Extends m failure := by
  rintro w a w' ⟨⟩

theorem bind {longer shorter : Act μ α} {next next' : α → Act μ β}
    (hfirst : Extends longer shorter) (hnext : ∀ a, Extends (next a) (next' a)) :
    Extends (longer >>= next) (shorter >>= next') := by
  intro w b w' h
  rw [run_bind_apply] at h ⊢
  rcases hrun : shorter.run w with ⟨_ | a, w₁⟩ <;> rw [hrun] at h
  · cases h
  · rw [hfirst w a w₁ hrun]
    exact hnext a w₁ b w' h

end Extends

end Act

/-! ## What a client does -/

namespace Client

variable {host : Host μ} {k : Client}

section Steps

theorem now_keeps {view : Client → β} {k : β} :
    Step.Keeps view k (fun _ => True) (now host) := .ask _

theorem evaluate_keeps (condition : Condition) :
    Step.Keeps standing k (fun _ => True) (evaluate host condition) :=
  .inSurroundings (fun _ _ => rfl) _

theorem allows_keeps (guard : Option Condition) :
    Step.Keeps standing k (fun allowed => ∀ err, allowed = .error err → ∃ e, err = .condition e)
      (allows host guard) := by
  cases guard with
  | none =>
      refine .pure fun err herr => ?_
      cases herr
  | some guard =>
      refine (evaluate_keeps guard).bind fun result _ => .pure ?_
      rintro err herr
      cases result <;> cases herr
      exact ⟨_, rfl⟩

theorem present_keeps {view : Client → β} {k : β} (name : String) (action : Action) :
    Step.Keeps view k (fun outcome => ∀ err, outcome = .error err → ∃ text, err = .action name text)
      (present host name action) := by
  refine (Step.Keeps.ask _).bind fun shown _ => .pure ?_
  rintro err herr
  cases shown <;> cases herr
  exact ⟨_, rfl⟩

theorem record_keeps (event : Event) :
    Step.Keeps standing k (fun _ => True) (record host event) := by
  refine now_keeps.bind fun t _ => Step.Keeps.current.bind fun c _ => ?_
  rcases c.store.recordEvent event t with ⟨result, store⟩
  exact fun w hw => ⟨hw, trivial⟩

theorem recordSample_keeps (name : String) (value : PropertyValue) (sampling : Sampling) :
    Step.Keeps standing k (fun _ => True) (recordSample host name value sampling) :=
  now_keeps.bind fun _ _ => .change fun _ => rfl

theorem recordSamples_keeps (samples : List (String × PropertyValue × Sampling)) :
    Step.Keeps standing k (fun _ => True) (recordSamples host samples) := by
  induction samples with
  | nil => exact .pure trivial
  | cons sample rest ih =>
      obtain ⟨name, value, sampling⟩ := sample
      exact (recordSample_keeps name value sampling).bind fun _ _ => ih

theorem updatePlan_keeps : Step.Keeps standing k (fun _ => True) (updatePlan host) := by
  refine now_keeps.bind fun t _ => Step.Keeps.current.bind fun c _ => ?_
  cases c.config with
  | none => exact .pure trivial
  | some config =>
      refine (Step.Keeps.inSurroundings (fun _ _ => rfl) _).bind fun plan _ => ?_
      exact fun w hw => ⟨hw, trivial⟩

theorem updatePlanFor_keeps (event : String) :
    Step.Keeps standing k (fun _ => True) (updatePlanFor host event) := by
  refine Step.Keeps.current.bind fun c _ => ?_
  split
  · exact updatePlan_keeps
  · exact .pure trivial

end Steps

/-- What holds of every client with a configuration holds of those that have started with it. -/
theorem keeps_active {c : Config} {ends : Option Outcome → Prop} {m : Act μ Outcome}
    (h : ∀ k : Client, k.config = some c → Act.Keeps standing k ends m) :
    Act.Keeps active (some c) ends m :=
  Step.Keeps.through (fun _ => rfl) fun k hk => h k (active_eq_some_iff.1 hk).2

/-! ### One nested step -/

/-- A promise about how operations end that allows for success and for all errors but those of a
look-up. -/
structure Lenient (ends : Option Outcome → Prop) : Prop where
  ok : ends (some (.ok ()))
  condition : ∀ err, ends (some (.error (.condition err)))
  event : ∀ err, ends (some (.error (.event err)))
  store : ∀ err, ends (some (.error (.store err)))
  action : ∀ name text, ends (some (.error (.action name text)))
  notStarted : ends (some (.error .notStarted))

section Nested

variable {ends : Option Outcome → Prop}

/-- The outcome of triggers whose last failure is known. -/
def failureOutcome : Option ClientError → Outcome
  | none => .ok ()
  | some err => .error err

theorem updateSession_keeps {process : Event → Act μ Outcome}
    (hprocess : Act.Keeps standing k ends (process (.builtIn .sessionStart))) :
    Act.Keeps standing k (fun ended => ended = none → ends none) (updateSession host process) := by
  refine .step now_keeps fun t _ => .step .current fun c _ => ?_
  split
  · exact .pure nofun
  · split
    · refine hprocess.bind (fun h _ => h) fun outcome _ => ?_
      split
      · refine .step now_keeps fun start _ => ?_
        exact fun w hw => ⟨hw, nofun⟩
      · exact .pure nofun
    all_goals exact .pure nofun

/-- Triggers end as the actions that they perform. -/
theorem runTriggers_keeps (hlenient : Lenient ends) {perform : String → Act μ Outcome}
    {triggers : List Trigger} {failure : Option ClientError}
    (hfailure : ends (some (failureOutcome failure)))
    (hperform : ∀ trigger ∈ triggers, Act.Keeps standing k ends (perform trigger.action)) :
    Act.Keeps standing k (fun ended => ends (ended.map failureOutcome))
      (runTriggers host perform failure triggers) := by
  induction triggers generalizing failure with
  | nil => exact .pure hfailure
  | cons trigger rest ih =>
      obtain ⟨hfirst, hrest⟩ := List.forall_mem_cons.1 hperform
      refine .step (allows_keeps _) fun allowed hallowed => ?_
      split
      · obtain ⟨e, rfl⟩ := hallowed _ rfl
        exact ih (hlenient.condition e) hrest
      · exact ih hfailure hrest
      · refine hfirst.bind id fun outcome houtcome => ?_
        split
        · exact ih hfailure hrest
        · exact ih houtcome hrest

theorem runAction_keeps (hlenient : Lenient ends) {perform : String → Act μ Outcome}
    {name : String} {action : Action}
    (hperform : ∀ fork, action = .fork fork → ∀ passed, ∀ target ∈ fork.target passed,
      Act.Keeps standing k ends (perform target)) :
    Act.Keeps standing k ends (runAction host perform name action) := by
  unfold runAction
  split
  case h_1 fork =>
    refine .step (evaluate_keeps _) fun result _ => ?_
    cases result with
    | error err => exact .pure (hlenient.condition err)
    | ok passed =>
        dsimp only
        cases htarget : fork.target passed with
        | none => exact .pure hlenient.ok
        | some target => exact hperform fork rfl passed target htarget
  case h_2 => exact .pure hlenient.ok
  case h_3 =>
    refine .lift ((present_keeps name action).mono fun outcome houtcome => ?_)
    cases outcome with
    | ok => exact hlenient.ok
    | error err =>
        obtain ⟨text, rfl⟩ := houtcome err rfl
        exact hlenient.action name text

theorem sendThrough_keeps (hlenient : Lenient ends) {process : Event → Act μ Outcome}
    {name : String} (hprocess : ∀ event, Event.ofApp name = .ok event →
      Act.Keeps standing k ends (process event)) :
    Act.Keeps standing k ends (sendThrough process name) := by
  rw [sendThrough]
  split
  case h_1 event hevent => exact hprocess event hevent
  case h_2 err _ => exact .pure (hlenient.event err)

/-- Record an event, perform what listens to it, and plan again. -/
def respond (host : Host μ) (steps : Nat) (event : Event) : Act μ Outcome := do
  let recorded ← record host event
  match recorded with
  | .error error => pure (.error (.store error))
  | .ok () => do
    let c ← current
    let triggers := c.config.elim [] fun config => config.triggersFor event.name
    let failed ← runTriggers host (perform host steps) none triggers
    updatePlanFor host event.name
    match failed with
    | some error => pure (.error error)
    | none => pure (.ok ())

theorem process_succ (steps : Nat) (event : Event) :
    process host (steps + 1) event = (do
      let c ← current
      if !c.isStarted then pure (.error .notStarted)
      else do
        if event = .builtIn .enteredForeground then updateSession host (process host steps)
        respond host steps event) := by
  rw [process]
  rfl

/-- The response to an event ends as the actions that listen to it. -/
theorem respond_keeps (hlenient : Lenient ends) {steps : Nat} {event : Event}
    (hlistening : ∀ config ∈ k.config, ∀ trigger ∈ config.triggersFor event.name,
      Act.Keeps standing k ends (perform host steps trigger.action)) :
    Act.Keeps standing k ends (respond host steps event) := by
  refine .step (record_keeps event) fun recorded _ => ?_
  cases recorded with
  | error err => exact .pure (hlenient.store err)
  | ok =>
      refine .step .current fun c hc => ?_
      have hconfig := config_of_standing hc
      have hnone : ends (some (failureOutcome none)) := hlenient.ok
      have hperform : ∀ trigger ∈ c.config.elim [] (fun config => config.triggersFor event.name),
          Act.Keeps standing k ends (perform host steps trigger.action) := by
        intro trigger htrigger
        rw [hconfig] at htrigger
        cases hsome : k.config with
        | none => simp [hsome] at htrigger
        | some config =>
            rw [hsome] at htrigger
            exact hlistening config hsome trigger htrigger
      refine (runTriggers_keeps hlenient hnone hperform).bind id fun failed hfailed => ?_
      refine .step (updatePlanFor_keeps _) fun _ _ => ?_
      cases failed <;> exact .pure hfailed

/-- An event ends as the actions that listen to it; the app's return to the foreground ends as the
beginning of a session, too. -/
theorem process_keeps (hlenient : Lenient ends) {steps : Nat} {event : Event}
    (hsession : event = .builtIn .enteredForeground →
      Act.Keeps standing k ends (process host steps (.builtIn .sessionStart)))
    (hlistening : ∀ config ∈ k.config, ∀ trigger ∈ config.triggersFor event.name,
      Act.Keeps standing k ends (perform host steps trigger.action)) :
    Act.Keeps standing k ends (process host (steps + 1) event) := by
  rw [process_succ]
  refine .step .current fun c _ => ?_
  split
  · exact .pure hlenient.notStarted
  · split
    · refine (updateSession_keeps (hsession ‹_›)).bind (fun h => h rfl) fun _ _ => ?_
      exact respond_keeps hlenient hlistening
    · exact respond_keeps hlenient hlistening

/-- An action ends as the one it runs in its place, if it is a fork, and as the event that
records it; one that the configuration does not have is not found. -/
theorem perform_keeps (hlenient : Lenient ends) {steps : Nat} {name : String}
    (hmissing : ∀ config ∈ k.config, config.action? name = none →
      ends (some (.error (.notFound .action name))))
    (hfork : ∀ config ∈ k.config, ∀ guarded ∈ config.action? name, ∀ fork,
      guarded.action = .fork fork → ∀ passed, ∀ target ∈ fork.target passed,
        Act.Keeps standing k ends (perform host steps target))
    (hrecorded : ∀ config ∈ k.config, (config.action? name).isSome → ∀ outcome event,
      Event.ofApp (actionEvent name outcome) = .ok event →
        Act.Keeps standing k ends (process host steps event)) :
    Act.Keeps standing k ends (perform host (steps + 1) name) := by
  rw [perform]
  refine .step .current fun c hc => ?_
  have hconfig := config_of_standing hc
  split
  case h_2 => exact .pure hlenient.notStarted
  case h_1 config _ hsome =>
    rw [hconfig] at hsome
    split
    case h_1 hnone => exact .pure (hmissing config hsome hnone)
    case h_2 guarded hguarded =>
      refine .step (allows_keeps _) fun allowed hallowed => ?_
      split
      · obtain ⟨err, rfl⟩ := hallowed _ rfl
        exact .pure (hlenient.condition err)
      · exact .pure hlenient.ok
      · refine (runAction_keeps hlenient fun fork haction =>
          hfork config hsome guarded hguarded fork haction).bind id fun outcome houtcome => ?_
        have hevents := hrecorded config hsome (hguarded ▸ rfl) outcome
        exact (sendThrough_keeps hlenient hevents).bind id fun _ _ => .pure houtcome

end Nested

theorem lenient_true : Lenient fun _ => True :=
  ⟨trivial, fun _ => trivial, fun _ => trivial, fun _ => trivial, fun _ _ => trivial, trivial⟩

/-- Whatever comes of them, events and actions only touch what they may. -/
theorem keeps_standing (steps : Nat) :
    (∀ event, Act.Keeps standing k (fun _ => True) (process host steps event)) ∧
      ∀ name, Act.Keeps standing k (fun _ => True) (perform host steps name) := by
  induction steps with
  | zero => exact ⟨fun _ => .failure trivial, fun _ => .failure trivial⟩
  | succ steps ih =>
      obtain ⟨hprocess, hperform⟩ := ih
      refine ⟨fun event => ?_, fun name => ?_⟩
      · exact process_keeps lenient_true (fun _ => hprocess _) fun _ _ _ _ => hperform _
      · exact perform_keeps lenient_true (fun _ _ _ => trivial)
          (fun _ _ _ _ _ _ _ _ _ => hperform _) fun _ _ _ _ _ _ => hprocess _

/-! ### More nested steps -/

section More

variable {longer shorter : String → Act μ Outcome} {longer' shorter' : Event → Act μ Outcome}

theorem updateSession_extends (h : ∀ event, Act.Extends (longer' event) (shorter' event)) :
    Act.Extends (updateSession host longer') (updateSession host shorter') := by
  refine (Act.Extends.refl _).bind fun t => (Act.Extends.refl _).bind fun c => ?_
  split
  · exact .refl _
  · cases c.beginsSession t with
    | error err => exact .refl _
    | ok begins =>
        cases begins with
        | false => exact .refl _
        | true => exact (h _).bind fun _ => .refl _

theorem runTriggers_extends (h : ∀ name, Act.Extends (longer name) (shorter name))
    (failure : Option ClientError) (triggers : List Trigger) :
    Act.Extends (runTriggers host longer failure triggers)
      (runTriggers host shorter failure triggers) := by
  induction triggers generalizing failure with
  | nil => exact .refl _
  | cons trigger rest ih =>
      refine (Act.Extends.refl _).bind fun allowed => ?_
      cases allowed with
      | error err => exact ih _
      | ok allowed =>
          cases allowed with
          | false => exact ih _
          | true =>
              refine (h _).bind fun outcome => ?_
              cases outcome with
              | ok => exact ih _
              | error err => exact ih _

theorem runAction_extends (h : ∀ name, Act.Extends (longer name) (shorter name)) (name : String)
    (action : Action) :
    Act.Extends (runAction host longer name action) (runAction host shorter name action) := by
  cases action
  case fork fork =>
    refine (Act.Extends.refl _).bind fun result => ?_
    cases result with
    | error err => exact .refl _
    | ok passed =>
        dsimp only
        cases fork.target passed with
        | none => exact .refl _
        | some target => exact h target
  all_goals exact .refl _

theorem sendThrough_extends (h : ∀ event, Act.Extends (longer' event) (shorter' event))
    (name : String) : Act.Extends (sendThrough longer' name) (sendThrough shorter' name) := by
  rw [sendThrough, sendThrough]
  cases Event.ofApp name with
  | ok event => exact h event
  | error err => exact .refl _

/-- One more nested step changes no answer. -/
theorem extends_succ (steps : Nat) :
    (∀ event, Act.Extends (process host (steps + 1) event) (process host steps event)) ∧
      ∀ name, Act.Extends (perform host (steps + 1) name) (perform host steps name) := by
  induction steps with
  | zero =>
      constructor
      · intro event
        rw [process.eq_1]
        exact .failure _
      · intro name
        rw [perform.eq_1]
        exact .failure _
  | succ steps ih =>
      obtain ⟨hprocess, hperform⟩ := ih
      have hrespond (event : Event) :
          Act.Extends (respond host (steps + 1) event) (respond host steps event) := by
        refine (Act.Extends.refl _).bind fun recorded => ?_
        cases recorded with
        | error err => exact .refl _
        | ok =>
            refine (Act.Extends.refl _).bind fun c => ?_
            exact (runTriggers_extends hperform _ _).bind fun _ => .refl _
      constructor
      · intro event
        rw [process_succ, process_succ]
        refine (Act.Extends.refl _).bind fun c => ?_
        split
        · exact .refl _
        · split
          · exact (updateSession_extends hprocess).bind fun _ => hrespond event
          · exact hrespond event
      · intro name
        rw [perform, perform]
        refine (Act.Extends.refl _).bind fun c => ?_
        split
        case h_2 => exact .refl _
        case h_1 config _ _ =>
          cases config.action? name with
          | none => exact .refl _
          | some guarded =>
              refine (Act.Extends.refl _).bind fun allowed => ?_
              cases allowed with
              | error err => exact .refl _
              | ok allowed =>
                  cases allowed with
                  | false => exact .refl _
                  | true =>
                      refine (runAction_extends hperform _ _).bind fun outcome => ?_
                      exact (sendThrough_extends hprocess _).bind fun _ => .refl _

end More

/-! ### A client at rest -/

/-- A client that has started with a configuration, and has no history. -/
def running (config : Config) : Client where
  bundleId := config.appId
  configUrl := "file://config"
  verifier := ⟨Curve.generator, none⟩
  engine := ⟨.lenient, []⟩
  sessionGap := Settings.defaultSessionGap
  allowDebugLoad := true
  files := .empty
  store := ⟨Store.defaultInterval, .empty, .started⟩
  registry := .empty
  config := some config
  isStarting := true
  isStarted := true
  sessionStart := none
  plan := none
  sessionRandom := 0

end Client

/-- A host that agrees to everything and has nothing to say. -/
def Host.quiet : Host Unit where
  present _ _ memory := (.ok (), memory)
  canOpen _ memory := (false, memory)
  takePlan _ memory := memory
  property _ memory := (none, memory)
  now memory := (⟨0⟩, memory)
  random memory := (0, memory)
  file _ memory := (none, memory)
  web := ⟨fun _ memory => (none, memory), fun _ memory => (none, memory)⟩
  zone := .utc

end Targeting
