/-
# Where events and actions lead

An operation of a client consists of small steps: it asks the host, it records, it changes the
client. If each of these leads from a world to a related one, and the relation is a preorder, so do
sequences of them, and by induction on the nested steps all events and actions. So what a run does
not touch, or only moves in one direction, is read off its small steps.
-/

import Targeting.Proofs.Client.Run
import Targeting.Proofs.Condition.Movement
import Targeting.Proofs.History.Recording

namespace Targeting

variable {μ α β : Type}

/-! ## Steps and operations that lead to related worlds -/

/-- From every world a step leads to a related one. -/
def Step.Moves (rel : World μ → World μ → Prop) (m : Step μ α) : Prop :=
  ∀ w, rel w (m w).2

/-- From every world an operation leads to a related one, whether it ends or runs out of steps. -/
def Act.Moves (rel : World μ → World μ → Prop) (m : Act μ α) : Prop :=
  Step.Moves rel m.run

section Sequences

variable {rel : World μ → World μ → Prop}

namespace Step.Moves

theorem pure [Std.Refl rel] (a : α) : Moves rel (Pure.pure a : Step μ α) := fun w => refl w

theorem current [Std.Refl rel] : Moves rel (Client.current : Step μ Client) := fun w => refl w

theorem bind [IsTrans (World μ) rel] {m : Step μ α} {next : α → Step μ β} (hm : Moves rel m)
    (hnext : ∀ a, Moves rel (next a)) : Moves rel (m >>= next) :=
  fun w => IsTrans.trans _ _ _ (hm w) (hnext _ _)

end Step.Moves

namespace Act.Moves

theorem pure [Std.Refl rel] (a : α) : Moves rel (Pure.pure a : Act μ α) := fun w => refl w

theorem failure [Std.Refl rel] : Moves rel (failure : Act μ α) := fun w => refl w

theorem bind [IsTrans (World μ) rel] {m : Act μ α} {next : α → Act μ β} (hm : Moves rel m)
    (hnext : ∀ a, Moves rel (next a)) : Moves rel (m >>= next) := by
  intro w
  have hfirst := hm w
  rw [run_bind_apply]
  rcases hrun : m.run w with ⟨_ | a, w'⟩ <;> rw [hrun] at hfirst
  · exact hfirst
  · exact IsTrans.trans _ _ _ hfirst (hnext a w')

theorem step [IsTrans (World μ) rel] {m : Step μ α} {next : α → Act μ β} (hm : Step.Moves rel m)
    (hnext : ∀ a, Moves rel (next a)) : Moves rel (liftM m >>= next) :=
  fun w => IsTrans.trans _ _ _ (hm w) (hnext _ _)

theorem lift {m : Step μ α} (hm : Step.Moves rel m) : Moves rel (liftM m : Act μ α) :=
  fun w => hm w

end Act.Moves

end Sequences

/-! ## What conditions do -/

/-- What conditions ask of a host, and what they record, leads to related surroundings. -/
structure Host.Surrounds (host : Host μ) (rel : Surroundings μ → Surroundings μ → Prop) : Prop where
  canOpen : ∀ url s, rel s (s.1, (host.canOpen url s.2).2)
  property : ∀ name s, rel s (s.1, (host.property name s.2).2)
  random : ∀ s, rel s (s.1, (host.random s.2).2)
  now : ∀ s, rel s (s.1, (host.now s.2).2)
  recordSample : ∀ s name value sampling t, rel s (s.1.recordSample name value sampling t, s.2)
  stableRandom : ∀ s candidate t, rel s ((s.1.stableRandom candidate t).2, s.2)

namespace Client

section Surroundings

variable {rel : Surroundings μ → Surroundings μ → Prop} [Std.Refl rel]
  [IsTrans (Surroundings μ) rel] {host : Host μ}

omit [IsTrans (Surroundings μ) rel] in
theorem value_moves (h : host.Surrounds rel) (r : Registry) (start : Option Calendar.Instant)
    (name : String) (s : Surroundings μ) : rel s (r.value (answers host start) name s).2 := by
  rw [Registry.value]
  split
  case h_1 => exact refl s
  case h_2 p _ =>
    cases p with
    | fixed value => exact refl s
    | app kind => exact h.property name s
    | history kind reading => exact refl s
    | sessionStart =>
        cases start with
        | some start => exact refl s
        | none => exact h.now s

theorem valuesOf_moves (h : host.Surrounds rel) (r : Registry) (start : Option Calendar.Instant)
    (names : List String) (s : Surroundings μ) :
    rel s (r.valuesOf (answers host start) names s).2 := by
  induction names generalizing s with
  | nil => exact refl s
  | cons name rest ih =>
      have hfirst := value_moves h r start name s
      have hrest := ih (r.value (answers host start) name s).2
      rw [Registry.valuesOf]
      dsimp only
      split <;> exact IsTrans.trans _ _ _ hfirst hrest

theorem dynamicReply_moves (h : host.Surrounds rel) (f : Condition.DynamicFunction) (name : String)
    (args : List Condition.Value) (s : Surroundings μ) :
    rel s (dynamicReply host f name args s).2 := by
  unfold dynamicReply
  split
  case h_4 => split <;> exact refl s
  case h_5 =>
    exact IsTrans.trans _ _ _ (IsTrans.trans _ _ _ (h.random s) (h.now _)) (h.stableRandom _ _ _)
  case h_6 => exact h.canOpen _ s
  all_goals exact refl s

theorem environment_moves (h : host.Surrounds rel) (c : Client) :
    (c.environment host).Moves rel where
  property name s := by
    have hvalue := value_moves h c.registry c.sessionStart name s
    simp only [environment]
    split
    case h_1 => exact hvalue
    case h_2 v _ =>
      split
      case isTrue =>
        exact IsTrans.trans _ _ _ hvalue
          (IsTrans.trans _ _ _ (h.now _) (h.recordSample _ name v _ _))
      case isFalse => exact hvalue
  function name args s := by
    simp only [environment]
    split
    case h_1 f _ => exact dynamicReply_moves h f name args s
    case h_2 => exact refl s
  sessionRandom s := refl s
  random s := h.random s
  now s := h.now s

end Surroundings

/-! ## What becomes of an event -/

section Events

variable {host : Host μ} {steps : Nat} {w : World μ}

/-- What listens to an event, and the new plan. -/
def follow (host : Host μ) (steps : Nat) (event : Event) : Act μ Outcome := do
  let c ← current
  let triggers := c.config.elim [] fun config => config.triggersFor event.name
  let failed ← runTriggers host (Client.perform host steps) none triggers
  updatePlanFor host event.name
  match failed with
  | some error => pure (.error error)
  | none => pure (.ok ())

/-- After the triggers, whatever has failed, there may be a new plan. -/
theorem follow_run (event : Event) (w : World μ) :
    (follow host steps event).run w =
      match (runTriggers host (perform host steps) none
        (w.client.config.elim [] fun config => config.triggersFor event.name)).run w with
      | (none, w₁) => (none, w₁)
      | (some failed, w₁) =>
        (some (failureOutcome failed), (updatePlanFor host event.name w₁).2) := by
  have hrun : (follow host steps event).run w =
      (runTriggers host (perform host steps) none
          (w.client.config.elim [] fun config => config.triggersFor event.name) >>= fun failed => do
        updatePlanFor host event.name
        match failed with
        | some error => pure (.error error)
        | none => pure (.ok ()) : Act μ Outcome).run w := rfl
  rw [hrun, Act.run_bind_apply]
  rcases (runTriggers host (perform host steps) none _).run w with ⟨_ | _ | err, w₁⟩ <;> rfl

theorem process_run (event : Event) (w : World μ) :
    (process host (steps + 1) event).run w =
      (if w.client.isStarted then
        if event = .builtIn .enteredForeground then
          updateSession host (process host steps) >>= fun _ => respond host steps event
        else respond host steps event
      else pure (.error .notStarted) : Act μ Outcome).run w := by
  have hrun : (process host (steps + 1) event).run w =
      (if !w.client.isStarted then pure (.error .notStarted)
      else
        if event = .builtIn .enteredForeground then
          updateSession host (process host steps) >>= fun _ => respond host steps event
        else respond host steps event : Act μ Outcome).run w := by
    rw [process_succ]
    rfl
  rw [hrun]
  cases w.client.isStarted <;> rfl

theorem respond_run (event : Event) (w : World μ) :
    (respond host steps event).run w =
      (match (record host event w).1 with
      | .error error => pure (.error (.store error))
      | .ok () => follow host steps event : Act μ Outcome).run (record host event w).2 :=
  rfl

/-- The response to an event, once it has been recorded. -/
theorem respond_run_of_isStarted (event : Event) (hstarted : w.client.store.isStarted) :
    (respond host steps event).run w = (follow host steps event).run (record host event w).2 := by
  have hrecord : (record host event w).1 = .ok () := by
    change (w.client.store.recordEvent event (host.now w.memory).1).1 = .ok ()
    rw [Store.recordEvent, Store.opened_of_isStarted hstarted]
  rw [respond_run, hrecord]

theorem respond_run_of_not_isStarted (event : Event) (hstarted : ¬ w.client.store.isStarted) :
    (respond host steps event).run w =
      (some (.error (.store .notStarted)), (record host event w).2) := by
  have hrecord : (record host event w).1 = .error .notStarted := by
    change (w.client.store.recordEvent event (host.now w.memory).1).1 = .error .notStarted
    rw [Store.recordEvent, Store.opened, if_neg hstarted]
  rw [respond_run, hrecord]
  rfl

end Events

end Client

/-! ## What events and actions do -/

/-- An app cannot send an event under the name of one of the library's. -/
theorem Event.name_ne_of_ofApp {name : String} {event : Event} (h : ofApp name = .ok event)
    (e : BuiltInEvent) : event.name ≠ e.name := by
  have hstart : startsWith e.name BuiltInEvent.nameStart := by cases e <;> decide
  have hsigned : e.name ≠ WellKnownEvent.signedIn := by cases e <;> decide
  rw [ofApp] at h
  split at h
  case isTrue =>
    rw [wellKnown] at h
    split at h
    case isTrue hknown =>
      cases h
      have hname : name = WellKnownEvent.signedIn := by
        simpa [WellKnownEvent.all] using hknown
      rintro rfl
      exact hsigned hname
    case isFalse => cases h
  case isFalse =>
    rw [custom] at h
    split at h
    case isTrue => cases h
    case isFalse =>
      split at h
      case isTrue => cases h
      case isFalse hreserved =>
        cases h
        rintro rfl
        exact hreserved (by rw [hstart]; rfl)

theorem Event.name_of_ofApp {name : String} {event : Event} (h : ofApp name = .ok event) :
    event.name = name := by
  unfold ofApp wellKnown custom at h
  split at h
  case isTrue => split at h <;> cases h; rfl
  case isFalse =>
    split at h
    case isTrue => cases h
    case isFalse => split at h <;> cases h; rfl

/-- The small steps of events and actions lead to related worlds, where events are recorded under
allowed names only, as those are that record actions. -/
structure Host.Guides (host : Host μ) (rel : World μ → World μ → Prop) (allowed : String → Prop) :
    Prop where
  evaluate : ∀ condition, Step.Moves rel (Client.evaluate host condition)
  present : ∀ name action, Step.Moves rel (Client.present host name action)
  updatePlan : Step.Moves rel (Client.updatePlan host)
  record : ∀ event : Event, allowed event.name → Step.Moves rel (Client.record host event)
  action : ∀ name outcome event, Event.ofApp (Client.actionEvent name outcome) = .ok event →
    allowed event.name

namespace Client

section Guides

variable {rel : World μ → World μ → Prop} [Std.Refl rel] [IsTrans (World μ) rel] {host : Host μ}
  {allowed : String → Prop} {process : Event → Act μ Outcome} {perform : String → Act μ Outcome}

theorem allows_moves (hevaluate : ∀ condition, Step.Moves rel (evaluate host condition))
    (guard : Option Condition) : Step.Moves rel (allows host guard) := by
  cases guard with
  | none => exact .pure _
  | some condition => exact (hevaluate condition).bind fun _ => .pure _

theorem updatePlanFor_moves (hplan : Step.Moves rel (updatePlan host)) (event : String) :
    Step.Moves rel (updatePlanFor host event) := by
  refine Step.Moves.current.bind fun c => ?_
  split
  · exact hplan
  · exact .pure _

theorem runTriggers_moves (h : host.Guides rel allowed)
    (hperform : ∀ name, Act.Moves rel (perform name)) (failure : Option ClientError)
    (triggers : List Trigger) : Act.Moves rel (runTriggers host perform failure triggers) := by
  induction triggers generalizing failure with
  | nil => exact .pure _
  | cons trigger rest ih =>
      refine .step (allows_moves h.evaluate _) fun allowed => ?_
      split
      · exact ih _
      · exact ih _
      · refine (hperform _).bind fun outcome => ?_
        split <;> exact ih _

theorem runAction_moves (h : host.Guides rel allowed)
    (hperform : ∀ name, Act.Moves rel (perform name)) (name : String) (action : Action) :
    Act.Moves rel (runAction host perform name action) := by
  unfold runAction
  split
  case h_1 fork =>
    refine .step (h.evaluate _) fun result => ?_
    cases result with
    | error err => exact .pure _
    | ok passed =>
        dsimp only
        cases fork.target passed with
        | none => exact .pure _
        | some target => exact hperform target
  case h_2 => exact .pure _
  case h_3 => exact .lift (h.present name action)

omit [IsTrans (World μ) rel] in
theorem sendThrough_moves {name : String}
    (hprocess : ∀ event, Event.ofApp name = .ok event → Act.Moves rel (process event)) :
    Act.Moves rel (sendThrough process name) := by
  rw [sendThrough]
  split
  case h_1 event hevent => exact hprocess event hevent
  case h_2 => exact .pure _

theorem follow_moves {steps : Nat} (h : host.Guides rel allowed)
    (hperform : ∀ name, Act.Moves rel (Client.perform host steps name)) (event : Event) :
    Act.Moves rel (follow host steps event) := by
  refine .step .current fun c => (runTriggers_moves h hperform _ _).bind fun failed => ?_
  refine .step (updatePlanFor_moves h.updatePlan _) fun _ => ?_
  cases failed <;> exact .pure _

theorem respond_moves {steps : Nat} {event : Event} (h : host.Guides rel allowed)
    (hperform : ∀ name, Act.Moves rel (Client.perform host steps name))
    (hname : allowed event.name) : Act.Moves rel (respond host steps event) := by
  refine .step (h.record event hname) fun recorded => ?_
  cases recorded with
  | error err => exact .pure _
  | ok => exact follow_moves h hperform event

/-- Actions lead to related worlds, and so do events under allowed names other than the app's return
to the foreground, which may begin a session. -/
theorem moves_of_steps (h : host.Guides rel allowed) (steps : Nat) :
    (∀ event : Event, allowed event.name → event.name ≠ BuiltInEvent.enteredForeground.name →
      Act.Moves rel (Client.process host steps event)) ∧
      ∀ name, Act.Moves rel (Client.perform host steps name) := by
  induction steps with
  | zero =>
      constructor
      · intro event _ _
        rw [process.eq_1]
        exact .failure
      · intro name
        rw [perform.eq_1]
        exact .failure
  | succ steps ih =>
      obtain ⟨hprocess, hperform⟩ := ih
      constructor
      · intro event hname hforeground
        rw [process_succ]
        refine .step .current fun c => ?_
        split
        · exact .pure _
        · rw [if_neg fun heq : event = .builtIn .enteredForeground =>
            hforeground (congrArg Event.name heq)]
          exact respond_moves h hperform hname
      · intro name
        rw [Client.perform]
        refine .step .current fun c => ?_
        split
        case h_2 => exact .pure _
        case h_1 config _ _ =>
          cases config.action? name with
          | none => exact .pure _
          | some guarded =>
              refine .step (allows_moves h.evaluate _) fun allowed => ?_
              split
              · exact .pure _
              · exact .pure _
              · refine (runAction_moves h hperform _ _).bind fun outcome => ?_
                refine (sendThrough_moves fun event hevent => ?_).bind fun _ => .pure _
                exact hprocess event (h.action name outcome event hevent)
                  (Event.name_ne_of_ofApp hevent _)

end Guides

end Client

end Targeting
