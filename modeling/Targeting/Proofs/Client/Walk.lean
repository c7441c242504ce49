/-
# What performing an action records

A fork runs another action in its place, which may be a fork itself. So performing an action is a
walk from link to link, and it ends where a link is missing, its guard does not hold, or it is no
fork. The walk decides the outcome at its end, and on the way back each link that was run is
recorded under that outcome, the inner ones first. The host is asked to present nothing but the
action at the end.

That holds where no trigger listens to the events that record actions, for then nothing else happens
while they are recorded but a new plan of notifications.
-/

import Targeting.Proofs.Client.Calls
import Targeting.Proofs.Client.Moves
import Targeting.Proofs.History.Sampling

namespace Targeting

variable {μ : Type}

/-- A log of what a host was asked to present. -/
structure Host.Logs (host : Host μ) (log : μ → List (String × Action)) : Prop where
  present : ∀ name action memory,
    log (host.present name action memory).2 = log memory ++ [(name, action)]
  canOpen : ∀ url memory, log (host.canOpen url memory).2 = log memory
  takePlan : ∀ plan memory, log (host.takePlan plan memory) = log memory
  property : ∀ name memory, log (host.property name memory).2 = log memory
  random : ∀ memory, log (host.random memory).2 = log memory
  now : ∀ memory, log (host.now memory).2 = log memory

/-- The host shows all actions but forks and those of unknown kinds. -/
def Action.isShown : Action → Bool
  | .fork _ | .unknown _ _ => false
  | _ => true

/-! ## What is added to the history and to the log of the host -/

/-- From one world to another events were recorded and actions presented, in that order each, and
the client changed in no other way than its events and actions may change it. -/
structure World.Adds (host : Host μ) (events : List Event) (presented : List (String × Action))
    (w w' : World μ) : Prop where
  standing_eq : w'.client.standing = w.client.standing
  isStarted_eq : w'.client.store.isStarted = w.client.store.isStarted
  events_eq : ∃ rows, w'.client.store.ledger.events = w.client.store.ledger.events ++ rows ∧
    rows.map EventRow.event = events
  log_eq : ∀ log, host.Logs log → log w'.memory = log w.memory ++ presented

/-- The client has started with a configuration, and its history can be written. -/
structure World.Ready (config : Config) (w : World μ) : Prop where
  isUp : w.client.IsUp config
  isStarted : w.client.store.isStarted

namespace World

variable {host : Host μ} {config : Config} {w w₁ w₂ : World μ} {events more : List Event}
  {presented shown : List (String × Action)}

theorem Adds.trans (h : Adds host events presented w w₁) (h' : Adds host more shown w₁ w₂) :
    Adds host (events ++ more) (presented ++ shown) w w₂ where
  standing_eq := h'.standing_eq.trans h.standing_eq
  isStarted_eq := h'.isStarted_eq.trans h.isStarted_eq
  events_eq := by
    obtain ⟨rows, hrows, hevents⟩ := h.events_eq
    obtain ⟨rows', hrows', hmore⟩ := h'.events_eq
    refine ⟨rows ++ rows', ?_, by rw [List.map_append, hevents, hmore]⟩
    rw [hrows', hrows, List.append_assoc]
  log_eq log hlog := by rw [h'.log_eq log hlog, h.log_eq log hlog, List.append_assoc]

theorem Adds.refl (w : World μ) : Adds host [] [] w w :=
  ⟨rfl, rfl, ⟨[], (List.append_nil _).symm, rfl⟩, fun _ _ => (List.append_nil _).symm⟩

instance : Std.Refl (Adds host [] []) := ⟨Adds.refl⟩

instance : IsTrans (World μ) (Adds host [] []) where
  trans _ _ _ h h' := h.trans h'

theorem Ready.config_eq (h : w.Ready config) : w.client.config = some config :=
  congrArg (·.2.2) h.isUp

theorem Ready.client_isStarted (h : w.Ready config) : w.client.isStarted :=
  congrArg (·.2.1) h.isUp

/-- A client that is ready stays so. -/
theorem Ready.of_adds (h : w.Ready config) (hadds : Adds host events presented w w₁) :
    w₁.Ready config where
  isUp := (congrArg Client.phase hadds.standing_eq).trans h.isUp
  isStarted := hadds.isStarted_eq.trans h.isStarted

end World

namespace Client

open World (Adds Ready)

variable {host : Host μ} {config : Config} {w w₁ w₂ : World μ}

section Silent

/-- No event is recorded and nothing is presented. -/
structure Hushed (host : Host μ) (s s' : Surroundings μ) : Prop where
  isStarted_eq : s'.1.isStarted = s.1.isStarted
  events_eq : s'.1.ledger.events = s.1.ledger.events
  log_eq : ∀ log, host.Logs log → log s'.2 = log s.2

instance : Std.Refl (Hushed host) := ⟨fun _ => ⟨rfl, rfl, fun _ _ => rfl⟩⟩

instance : IsTrans (Surroundings μ) (Hushed host) where
  trans _ _ _ h h' := ⟨h'.isStarted_eq.trans h.isStarted_eq, h'.events_eq.trans h.events_eq,
    fun log hlog => (h'.log_eq log hlog).trans (h.log_eq log hlog)⟩

theorem surrounds_hushed : host.Surrounds (Hushed host) where
  canOpen url s := ⟨rfl, rfl, fun _ hlog => hlog.canOpen url s.2⟩
  property name s := ⟨rfl, rfl, fun _ hlog => hlog.property name s.2⟩
  random s := ⟨rfl, rfl, fun _ hlog => hlog.random s.2⟩
  now s := ⟨rfl, rfl, fun _ hlog => hlog.now s.2⟩
  recordSample s name value sampling t :=
    ⟨s.1.isStarted_recordSample ⟨name, value, sampling, t⟩,
      s.1.events_recordSample ⟨name, value, sampling, t⟩, fun _ _ => rfl⟩
  stableRandom s candidate t :=
    ⟨s.1.isStarted_stableRandom candidate t, s.1.events_stableRandom candidate t, fun _ _ => rfl⟩

theorem inSurroundings_adds {α : Type} {f : Client → Surroundings μ → α × Surroundings μ}
    (h : ∀ c s, Hushed host s (f c s).2) : Step.Moves (Adds host [] []) (inSurroundings f) := by
  intro w
  obtain ⟨hstarted, hevents, hlog⟩ := h w.client (w.client.store, w.memory)
  exact ⟨rfl, hstarted, ⟨[], hevents.trans (List.append_nil _).symm, rfl⟩,
    fun log h => (hlog log h).trans (List.append_nil _).symm⟩

theorem evaluate_adds (condition : Condition) :
    Step.Moves (Adds host [] []) (evaluate host condition) :=
  inSurroundings_adds fun c s => condition.evaluate_moves (environment_moves surrounds_hushed c) s

theorem now_adds : Step.Moves (Adds host [] []) (now host) :=
  fun w => ⟨rfl, rfl, ⟨[], (List.append_nil _).symm, rfl⟩,
    fun _ hlog => (hlog.now w.memory).trans (List.append_nil _).symm⟩

theorem updatePlan_adds : Step.Moves (Adds host [] []) (updatePlan host) := by
  refine now_adds.bind fun t => Step.Moves.current.bind fun c => ?_
  split
  · exact .pure _
  · refine (inSurroundings_adds fun c s => ?_).bind fun plan w => ?_
    · exact Plan.make_moves (environment_moves surrounds_hushed c) _ _ _ _ s
    · exact ⟨rfl, rfl, ⟨[], (List.append_nil _).symm, rfl⟩,
        fun _ hlog => (hlog.takePlan plan w.memory).trans (List.append_nil _).symm⟩

end Silent

theorem present_adds (name : String) (action : Action) (w : World μ) :
    Adds host [] [(name, action)] w (present host name action w).2 :=
  ⟨rfl, rfl, ⟨[], (List.append_nil _).symm, rfl⟩, fun _ hlog => hlog.present name action w.memory⟩

theorem record_adds (hstarted : w.client.store.isStarted) (event : Event) :
    Adds host [event] [] w (record host event w).2 := by
  have hstore : (record host event w).2.client.store = _ :=
    Store.recordEvent_of_isStarted hstarted
  refine ⟨rfl, ?_, ⟨[⟨event, (host.now w.memory).1⟩], ?_, rfl⟩,
    fun _ hlog => (hlog.now w.memory).trans (List.append_nil _).symm⟩ <;> rw [hstore]
  · rfl
  · rfl

/-! ## Recording an action -/

/-- The event that records an action. -/
def recording (name : String) (outcome : Outcome) : Event := ⟨actionEvent name outcome, .custom⟩

/-- The event of an action is one that the app may send. -/
theorem ofApp_actionEvent (name : String) (outcome : Outcome) :
    Event.ofApp (actionEvent name outcome) = .ok (recording name outcome) := by
  have hname : ∃ rest, (actionEvent name outcome).toList = 'a' :: rest := by
    cases outcome <;> exact ⟨_, by rw [actionEvent, String.toList_append]; rfl⟩
  obtain ⟨rest, hrest⟩ := hname
  have hstart (start : String) {tail : List Char} (h : start.toList = 'i' :: tail) :
      Event.startsWith (actionEvent name outcome) start = false := by
    rw [Event.startsWith, hrest, h]
    rfl
  have hne : actionEvent name outcome ≠ "" := by
    intro hempty
    rw [hempty] at hrest
    cases hrest
  rw [Event.ofApp, hstart WellKnownEvent.nameStart rfl, if_neg Bool.false_ne_true, Event.custom,
    if_neg hne, hstart BuiltInEvent.nameStart rfl, hstart WellKnownEvent.nameStart rfl]
  rfl

/-- No trigger of a configuration listens to the events that record actions. -/
def Unheard (config : Config) : Prop :=
  ∀ name outcome, config.triggersFor (actionEvent name outcome) = []

/-- The world after an event to which nobody listens. -/
def noted (host : Host μ) (event : Event) (w : World μ) : World μ :=
  (updatePlanFor host event.name (record host event w).2).2

theorem noted_adds (hready : w.Ready config) (event : Event) :
    Adds host [event] [] w (noted host event w) :=
  (record_adds hready.isStarted event).trans (updatePlanFor_moves updatePlan_adds event.name _)

/-- An event to which nobody listens is recorded, and may call for a new plan. -/
theorem process_run_of_unheard (hready : w.Ready config) {event : Event}
    (hunheard : config.triggersFor event.name = []) (hkind : event.kind = .custom) (steps : Nat) :
    (process host (steps + 1) event).run w = (some (.ok ()), noted host event w) := by
  have hne : event ≠ .builtIn .enteredForeground := by
    rintro rfl
    cases hkind
  have hready₁ : (record host event w).2.Ready config :=
    hready.of_adds (record_adds hready.isStarted event)
  rw [process_run, if_pos hready.client_isStarted, if_neg hne,
    respond_run_of_isStarted _ hready.isStarted, follow_run, hready₁.config_eq, Option.elim_some,
    hunheard]
  rfl

/-! ## Performing an action -/

/-- What a guard says; without a guard nothing stands in the way. -/
def guardSays (host : Host μ) : Option Condition → Step μ (Except Condition.Error Bool)
  | none => pure (.ok true)
  | some guard => evaluate host guard

theorem allows_apply (guard : Option Condition) (w : World μ) :
    allows host guard w =
      ((guardSays host guard w).1.mapError ClientError.condition, (guardSays host guard w).2) := by
  cases guard <;> rfl

theorem guardSays_adds (guard : Option Condition) :
    Step.Moves (Adds host [] []) (guardSays host guard) := by
  cases guard with
  | none => exact .pure _
  | some guard => exact evaluate_adds guard

theorem perform_succ_run (steps : Nat) (name : String) (w : World μ) :
    (perform host (steps + 1) name).run w =
      (match w.client.isStarted, w.client.config with
      | true, some config =>
        match config.action? name with
        | none => pure (.error (.notFound .action name))
        | some guarded => do
          let allowed ← allows host guarded.guard
          match allowed with
          | .error error => pure (.error error)
          | .ok false => pure (.ok ())
          | .ok true => do
            let outcome ← runAction host (perform host steps) name guarded.action
            let _ ← sendThrough (process host steps) (actionEvent name outcome)
            pure outcome
      | _, _ => pure (.error .notStarted) : Act μ Outcome).run w := by
  rw [perform]
  rfl

/-- What performing an action comes to: it is looked up, its guard is asked, it is run, and then it
is recorded. -/
theorem perform_run (hready : w.Ready config) (steps : Nat) (name : String) :
    (perform host (steps + 1) name).run w =
      match config.action? name with
      | none => (some (.error (.notFound .action name)), w)
      | some guarded =>
        match guardSays host guarded.guard w with
        | (.error err, w₁) => (some (.error (.condition err)), w₁)
        | (.ok false, w₁) => (some (.ok ()), w₁)
        | (.ok true, w₁) =>
          match (runAction host (perform host steps) name guarded.action).run w₁ with
          | (none, w₂) => (none, w₂)
          | (some outcome, w₂) =>
            match (process host steps (recording name outcome)).run w₂ with
            | (none, w₃) => (none, w₃)
            | (some _, w₃) => (some outcome, w₃) := by
  rw [perform_succ_run, hready.client_isStarted, hready.config_eq]
  dsimp only
  cases config.action? name with
  | none => rfl
  | some guarded =>
      dsimp only
      rw [Act.run_step_apply, allows_apply]
      rcases guardSays host guarded.guard w with ⟨err | _ | _, w₁⟩
      · rfl
      · rfl
      · change (runAction _ _ _ _ >>= _ : Act μ Outcome).run w₁ = _
        rw [Act.run_bind_apply]
        dsimp only
        rcases (runAction host (perform host steps) name guarded.action).run w₁ with
          ⟨_ | outcome, w₂⟩
        · rfl
        · dsimp only
          rw [Act.run_bind_apply, sendThrough, ofApp_actionEvent]
          dsimp only
          rcases (process host steps (recording name outcome)).run w₂ with ⟨_ | _, w₃⟩ <;> rfl

theorem runAction_fork_run (perform : String → Act μ Outcome) (name : String) (fork : Fork)
    (w : World μ) :
    (runAction host perform name (.fork fork)).run w =
      match evaluate host fork.condition w with
      | (.error err, w') => (some (.error (.condition err)), w')
      | (.ok passed, w') =>
        match fork.target passed with
        | none => (some (.ok ()), w')
        | some next => (perform next).run w' := by
  rw [runAction, Act.run_step_apply]
  rcases evaluate host fork.condition w with ⟨err | passed, w'⟩
  · rfl
  · dsimp only
    cases fork.target passed <;> rfl

theorem runAction_shown_run (perform : String → Act μ Outcome) (name : String) {action : Action}
    (h : action.isShown) (w : World μ) :
    (runAction host perform name action).run w =
      (some (present host name action w).1, (present host name action w).2) := by
  cases action with
  | fork _ | unknown _ _ => cases h
  | banner _ | alert _ | link _ | modal _ | reviewPrompt => rfl

/-! ## Walks -/

/-- A link is there, and its guard does not stand in the way. -/
def Opens (host : Host μ) (config : Config) (w : World μ) (name : String) (action : Action)
    (w₁ : World μ) : Prop :=
  ∃ guard, config.action? name = some ⟨guard, action⟩ ∧ guardSays host guard w = (.ok true, w₁)

/-- How performing an action goes on from a world, told by the links that are run, by what the host
is asked to present, and by the outcome, which the last link decides that is reached. -/
inductive Walks (host : Host μ) (config : Config) :
    World μ → String → List String → List (String × Action) → Outcome → Prop
  | missing {w : World μ} {name : String} (h : config.action? name = none) :
    Walks host config w name [] [] (.error (.notFound .action name))
  | unmet {w w₁ : World μ} {name : String} {guarded : GuardedAction}
    (h : config.action? name = some guarded)
    (hguard : guardSays host guarded.guard w = (.ok false, w₁)) :
    Walks host config w name [] [] (.ok ())
  | undecided {w w₁ : World μ} {name : String} {guarded : GuardedAction} {err : Condition.Error}
    (h : config.action? name = some guarded)
    (hguard : guardSays host guarded.guard w = (.error err, w₁)) :
    Walks host config w name [] [] (.error (.condition err))
  | shown {w w₁ : World μ} {name : String} {action : Action}
    (h : Opens host config w name action w₁) (hshown : action.isShown) :
    Walks host config w name [name] [(name, action)] (present host name action w₁).1
  | unknown {w w₁ : World μ} {name kind : String} {data : Json}
    (h : Opens host config w name (.unknown kind data) w₁) :
    Walks host config w name [name] [] (.ok ())
  | torn {w w₁ w₂ : World μ} {name : String} {fork : Fork} {err : Condition.Error}
    (h : Opens host config w name (.fork fork) w₁)
    (hfork : evaluate host fork.condition w₁ = (.error err, w₂)) :
    Walks host config w name [name] [] (.error (.condition err))
  | idle {w w₁ w₂ : World μ} {name : String} {fork : Fork} {passed : Bool}
    (h : Opens host config w name (.fork fork) w₁)
    (hfork : evaluate host fork.condition w₁ = (.ok passed, w₂))
    (htarget : fork.target passed = none) :
    Walks host config w name [name] [] (.ok ())
  | on {w w₁ w₂ : World μ} {name next : String} {fork : Fork} {passed : Bool}
    {performed : List String} {presented : List (String × Action)} {outcome : Outcome}
    (h : Opens host config w name (.fork fork) w₁)
    (hfork : evaluate host fork.condition w₁ = (.ok passed, w₂))
    (htarget : fork.target passed = some next)
    (hnext : Walks host config w₂ next performed presented outcome) :
    Walks host config w name (name :: performed) presented outcome

variable {name : String} {action : Action} {performed : List String}
  {presented : List (String × Action)} {outcome : Outcome}

/-- At most the action at the end of a walk is presented, and never a fork or an unknown one. -/
theorem Walks.presented_cases (h : Walks host config w name performed presented outcome) :
    presented = [] ∨ ∃ link guard action, presented = [(link, action)] ∧
      performed.getLast? = some link ∧ config.action? link = some ⟨guard, action⟩ ∧
      action.isShown := by
  induction h with
  | missing | unmet | undecided | unknown | torn | idle => exact .inl rfl
  | shown h hshown =>
      obtain ⟨guard, haction, -⟩ := h
      exact .inr ⟨_, guard, _, rfl, rfl, haction, hshown⟩
  | on _ _ _ _ ih =>
      obtain hnone | ⟨link, guard, action, hone, hlast, haction, hshown⟩ := ih
      · exact .inl hnone
      · exact .inr ⟨link, guard, action, hone, by simp [List.getLast?_cons, hlast], haction, hshown⟩

theorem adds_of_guardSays {guard : Option Condition} {answer : Except Condition.Error Bool}
    (h : guardSays host guard w = (answer, w₁)) : Adds host [] [] w w₁ := by
  have hadds : Adds host [] [] w (guardSays host guard w).2 := guardSays_adds guard w
  rwa [h] at hadds

theorem adds_of_evaluate {condition : Condition} {answer : Except Condition.Error Bool}
    (h : evaluate host condition w = (answer, w₁)) : Adds host [] [] w w₁ := by
  have hadds : Adds host [] [] w (evaluate host condition w).2 := evaluate_adds condition w
  rwa [h] at hadds

/-- A link that is run is recorded, after all that running it has recorded. -/
theorem Opens.records (h : Opens host config w name action w₁) (hready : w.Ready config)
    (hunheard : Unheard config) {enough : Nat} {events : List Event}
    (hrun : ∀ steps > enough,
      (runAction host (perform host steps) name action).run w₁ = (some outcome, w₂))
    (hadds : Adds host events presented w₁ w₂) :
    ∃ w', (∀ steps > enough + 1, (perform host steps name).run w = (some outcome, w')) ∧
      Adds host (events ++ [recording name outcome]) presented w w' := by
  obtain ⟨guard, haction, hguard⟩ := h
  have hbefore := (adds_of_guardSays hguard).trans hadds
  have hready₂ := hready.of_adds hbefore
  refine ⟨noted host (recording name outcome) w₂, fun steps hsteps => ?_, ?_⟩
  · obtain ⟨steps, rfl⟩ : ∃ before, steps = before + 2 := ⟨steps - 2, by omega⟩
    rw [perform_run hready, haction]
    dsimp only
    rw [hguard]
    dsimp only
    rw [hrun (steps + 1) (by omega)]
    dsimp only
    rw [process_run_of_unheard hready₂ (hunheard name outcome) rfl]
  · simpa using hbefore.trans (noted_adds hready₂ (recording name outcome))

/-- By induction on the walk: the outcome of its end goes back through all links. -/
theorem Walks.records (h : Walks host config w name performed presented outcome)
    (hunheard : Unheard config) (hready : w.Ready config) :
    ∃ w', (∀ steps > performed.length, (perform host steps name).run w = (some outcome, w')) ∧
      Adds host (performed.reverse.map (recording · outcome)) presented w w' := by
  induction h with
  | missing haction =>
      refine ⟨_, fun steps hsteps => ?_, Adds.refl _⟩
      obtain ⟨steps, rfl⟩ := Nat.exists_eq_add_of_lt hsteps
      rw [perform_run hready, haction]
  | unmet haction hguard | undecided haction hguard =>
      refine ⟨_, fun steps hsteps => ?_, adds_of_guardSays hguard⟩
      obtain ⟨steps, rfl⟩ := Nat.exists_eq_add_of_lt hsteps
      rw [perform_run hready, haction]
      dsimp only
      rw [hguard]
  | shown hopens hshown =>
      exact hopens.records hready hunheard (fun _ _ => runAction_shown_run _ _ hshown _)
        (present_adds ..)
  | unknown hopens =>
      exact hopens.records hready hunheard (fun _ _ => rfl) (Adds.refl _)
  | torn hopens hfork =>
      refine hopens.records hready hunheard (fun _ _ => ?_) (adds_of_evaluate hfork)
      rw [runAction_fork_run, hfork]
  | idle hopens hfork htarget =>
      refine hopens.records hready hunheard (fun _ _ => ?_) (adds_of_evaluate hfork)
      rw [runAction_fork_run, hfork]
      dsimp only
      rw [htarget]
  | on hopens hfork htarget _ ih =>
      obtain ⟨guard, -, hguard⟩ := id hopens
      have hbefore := (adds_of_guardSays hguard).trans (adds_of_evaluate hfork)
      obtain ⟨w₃, hrun, hadds⟩ := ih (hready.of_adds hbefore)
      rw [List.reverse_cons, List.map_append]
      refine hopens.records hready hunheard (fun steps hsteps => ?_)
        ((adds_of_evaluate hfork).trans hadds)
      rw [runAction_fork_run, hfork]
      dsimp only
      rw [htarget]
      exact hrun steps hsteps

/-! ## Chains of forks -/

/-- A walk goes on from every link where it has no end. -/
theorem exists_walks_or_on (host : Host μ) (config : Config) (w : World μ) (name : String) :
    (∃ performed presented outcome, Walks host config w name performed presented outcome) ∨
      ∃ fork passed next w₁ w₂, Opens host config w name (.fork fork) w₁ ∧
        evaluate host fork.condition w₁ = (.ok passed, w₂) ∧ fork.target passed = some next := by
  cases haction : config.action? name with
  | none => exact .inl ⟨_, _, _, .missing haction⟩
  | some guarded =>
      obtain ⟨guard, action⟩ := guarded
      rcases hguard : guardSays host guard w with ⟨err | _ | _, w₁⟩
      · exact .inl ⟨_, _, _, .undecided haction hguard⟩
      · exact .inl ⟨_, _, _, .unmet haction hguard⟩
      · have hopens : Opens host config w name action w₁ := ⟨guard, haction, hguard⟩
        cases action with
        | fork fork =>
            rcases hfork : evaluate host fork.condition w₁ with ⟨err | passed, w₂⟩
            · exact .inl ⟨_, _, _, .torn hopens hfork⟩
            · cases htarget : fork.target passed with
              | none => exact .inl ⟨_, _, _, .idle hopens hfork htarget⟩
              | some next => exact .inr ⟨fork, passed, next, w₁, w₂, hopens, hfork, htarget⟩
        | unknown kind data => exact .inl ⟨_, _, _, .unknown hopens⟩
        | banner _ | alert _ | link _ | modal _ | reviewPrompt =>
            exact .inl ⟨_, _, _, .shown hopens rfl⟩

/-- A fork may run an action in its place. -/
def Continues (config : Config) (link next : String) : Prop :=
  ∃ guard fork passed, config.action? link = some ⟨guard, .fork fork⟩ ∧
    fork.target passed = some next

/-- Every chain of forks from an action has an end. -/
def ChainsEnd (config : Config) : String → Prop :=
  Acc fun next link => Continues config link next

theorem exists_walks_of_chainsEnd (host : Host μ) (h : ChainsEnd config name) (w : World μ) :
    ∃ performed presented outcome, Walks host config w name performed presented outcome := by
  induction h generalizing w with
  | intro name _ ih =>
      obtain hends | ⟨fork, passed, next, w₁, w₂, hopens, hfork, htarget⟩ :=
        exists_walks_or_on host config w name
      · exact hends
      · obtain ⟨guard, haction, -⟩ := id hopens
        obtain ⟨performed, presented, outcome, hnext⟩ :=
          ih next ⟨guard, fork, passed, haction, htarget⟩ w₂
        exact ⟨_, _, _, .on hopens hfork htarget hnext⟩

/-- Performing an action does not end where no walk does. -/
theorem exists_walks_of_isSome (hready : w.Ready config) {steps : Nat}
    (h : ((perform host steps name).run w).1.isSome) :
    ∃ performed presented outcome, Walks host config w name performed presented outcome := by
  induction steps generalizing w name with
  | zero => cases h
  | succ steps ih =>
      obtain hends | ⟨fork, passed, next, w₁, w₂, hopens, hfork, htarget⟩ :=
        exists_walks_or_on host config w name
      · exact hends
      · obtain ⟨guard, haction, hguard⟩ := id hopens
        have hready₂ := hready.of_adds ((adds_of_guardSays hguard).trans (adds_of_evaluate hfork))
        suffices hsome : ((perform host steps next).run w₂).1.isSome by
          obtain ⟨performed, presented, outcome, hnext⟩ := ih hready₂ hsome
          exact ⟨_, _, _, .on hopens hfork htarget hnext⟩
        rw [perform_run hready, haction] at h
        dsimp only at h
        rw [hguard] at h
        dsimp only at h
        rw [runAction_fork_run, hfork] at h
        dsimp only at h
        rw [htarget] at h
        dsimp only at h
        rcases hrun : (perform host steps next).run w₂ with ⟨_ | outcome, w₃⟩
        · rw [hrun] at h
          cases h
        · rfl

/-! ## What is recorded -/

/-- **Performing an action records each link that was run exactly once.** Take a client that has
started with a configuration none of whose triggers listens to the events that record actions, and
whose history can be written. Performing an action is a walk from link to link: there is one
wherever every chain of forks ends, and wherever performing ends at all. Whatever the walk, so many
nested steps as it has links, and one more, are enough; then the outcome is that of the last link
that was reached, the history has one more event for each link that was run, the inner ones first
and all under this outcome, and none for a link that is missing or kept back by its guard. The host
was asked to present at most one action, the last one of the links that were run; that is no fork,
and no action of an unknown kind. -/
theorem links_are_recorded_once (host : Host μ) {config : Config} {w : World μ}
    (hup : w.client.IsUp config) (hstarted : w.client.store.isStarted)
    (hunheard : Unheard config) (name : String) :
    (ChainsEnd config name ∨ (∃ steps, ((perform host steps name).run w).1.isSome) →
      ∃ performed presented outcome, Walks host config w name performed presented outcome) ∧
    ∀ performed presented outcome, Walks host config w name performed presented outcome →
      ∃ w', (∀ steps > performed.length, (perform host steps name).run w = (some outcome, w')) ∧
        (∃ rows, w'.client.store.ledger.events = w.client.store.ledger.events ++ rows ∧
          rows.map EventRow.event =
            performed.reverse.map fun link => ⟨actionEvent link outcome, .custom⟩) ∧
        (presented = [] ∨ ∃ link guard action, presented = [(link, action)] ∧
          performed.getLast? = some link ∧ config.action? link = some ⟨guard, action⟩ ∧
          action.isShown) ∧
        ∀ log, host.Logs log → log w'.memory = log w.memory ++ presented := by
  have hready : w.Ready config := ⟨hup, hstarted⟩
  refine ⟨?_, fun performed presented outcome hwalks => ?_⟩
  · rintro (hends | ⟨steps, hsome⟩)
    · exact exists_walks_of_chainsEnd host hends w
    · exact exists_walks_of_isSome hready hsome
  · obtain ⟨w', hrun, hadds⟩ := hwalks.records hunheard hready
    exact ⟨w', hrun, hadds.events_eq, hwalks.presented_cases, hadds.log_eq⟩

/-- An offer that leads to a sale by way of an upgrade that is not possible. -/
def offers : Config :=
  { Config.empty "app" with
    actions :=
      [("offer", ⟨none, .fork ⟨.ofSource "true", "upgrade", none⟩⟩),
        ("sale", ⟨none, .banner .null⟩),
        ("upgrade", ⟨some (.ofSource "1 < 2"), .fork ⟨.ofSource "false", "missing", some "sale"⟩⟩)]
    triggers := [("greet", ⟨BuiltInEvent.sessionStart.name, "offer", none⟩)] }

/-- A host that remembers what it was asked to present, and never does. -/
def reluctant : Host (List (String × Action)) where
  present name action asked := (.error "busy", asked ++ [(name, action)])
  canOpen _ asked := (false, asked)
  takePlan _ asked := asked
  property _ asked := (none, asked)
  now asked := (⟨0⟩, asked)
  random asked := (0, asked)
  file _ asked := (none, asked)
  web := ⟨fun _ asked => (none, asked), fun _ asked => (none, asked)⟩
  zone := .utc

theorem reluctant_logs : reluctant.Logs id := by
  constructor <;> intros <;> rfl

theorem unheard_offers : Unheard offers := by
  intro name outcome
  have hne : BuiltInEvent.sessionStart.name ≠ actionEvent name outcome :=
    (Event.name_ne_of_ofApp (ofApp_actionEvent name outcome) .sessionStart).symm
  simp [Config.triggersFor, offers, hne]

theorem chainsEnd_offers : ChainsEnd offers "offer" := by
  have hend {name : String} (h : (offers.action? name).all fun guarded => guarded.action.isShown) :
      ChainsEnd offers name := by
    refine ⟨_, fun next hnext => ?_⟩
    obtain ⟨guard, fork, passed, haction, -⟩ := hnext
    rw [haction] at h
    cases h
  have hupgrade : ChainsEnd offers "upgrade" := by
    refine ⟨_, fun next hnext => ?_⟩
    obtain ⟨guard, fork, passed, haction, htarget⟩ := hnext
    cases haction
    cases passed <;> cases htarget <;> exact hend (by decide)
  refine ⟨_, fun next hnext => ?_⟩
  obtain ⟨guard, fork, passed, haction, htarget⟩ := hnext
  cases haction
  cases passed <;> cases htarget
  exact hupgrade

/-- The sale is the only action that the host is asked to present. It refuses, so all three links
are recorded as failed, the sale first. -/
theorem refused_sale_is_recorded :
    let w : World (List (String × Action)) := ⟨running offers, []⟩
    ChainsEnd offers "offer" ∧
      ∃ w', (∀ steps > 3, (perform reluctant steps "offer").run w =
          (some (.error (.action "sale" "busy")), w')) ∧
        w'.client.store.ledger.events.map EventRow.event =
          [⟨"action_error:sale", .custom⟩, ⟨"action_error:upgrade", .custom⟩,
            ⟨"action_error:offer", .custom⟩] ∧
        w'.memory = [("sale", .banner .null)] := by
  intro w
  have hup : w.client.IsUp offers := rfl
  obtain ⟨-, hrecorded⟩ := links_are_recorded_once reluctant hup rfl unheard_offers "offer"
  let w₁ := (evaluate reluctant (.ofSource "true") w).2
  let w₂ := (evaluate reluctant (.ofSource "1 < 2") w₁).2
  have hoffer : (evaluate reluctant (.ofSource "true") w).1 = .ok true := by decide +kernel
  have hguard : (evaluate reluctant (.ofSource "1 < 2") w₁).1 = .ok true := by decide +kernel
  have hupgrade : (evaluate reluctant (.ofSource "false") w₂).1 = .ok false := by decide +kernel
  have hwalks : Walks reluctant offers w "offer" ["offer", "upgrade", "sale"]
      [("sale", .banner .null)] (.error (.action "sale" "busy")) := by
    refine .on ⟨none, rfl, rfl⟩ (Prod.ext hoffer rfl) rfl ?_
    refine .on ⟨_, rfl, Prod.ext hguard rfl⟩ (Prod.ext hupgrade rfl) rfl ?_
    exact .shown ⟨none, rfl, rfl⟩ rfl
  obtain ⟨w', hrun, ⟨rows, hrows, hevents⟩, -, hlog⟩ := hrecorded _ _ _ hwalks
  refine ⟨chainsEnd_offers, w', hrun, ?_, hlog id reluctant_logs⟩
  rw [hrows, List.map_append, hevents]
  rfl

end Client

end Targeting
