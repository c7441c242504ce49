/-
# The triggers that listen to an event

An event of the app is recorded before any trigger is looked at. Then all triggers that listen to it
are considered, in the order of their names and whatever became of the ones before: the guard of
each is asked in the world that those have left, and its action is attempted if nothing stands in
the way. What goes wrong is remembered for the answer, of several failures the last one, and it
keeps neither the later triggers from being considered nor the notifications from being planned
again.

Actions that are attempted are recorded as events of their own, to which triggers may listen in
turn. These have other names, so the event itself is recorded once.
-/

import Targeting.Proofs.Client.Preparation
import Targeting.Proofs.Client.Walk
import Targeting.Proofs.Config.Closed
import Targeting.Proofs.Text.SortedNames

namespace Targeting

variable {μ : Type}

/-! ## Triggers in the order of their names -/

namespace Config

open Json (Written)

theorem isSorted_of_table? {α : Type} {read : Written → Option α} {json : Written}
    {table : List (String × α)} (h : json.table? read = some table) : NameMap.IsSorted table := by
  cases json with
  | object members =>
      obtain ⟨entries, -, rfl⟩ := Option.map_eq_some_iff.1 h
      exact (NameMap.isSorted_ofList entries).1
  | null | bool _ | number _ | text _ | array _ => cases h

theorem isSorted_of_section? {α : Type} {name : String} {read : Written → Option α}
    {json : Written} {table : List (String × α)}
    (h : ConfigDraft.section? name read json = some table) : NameMap.IsSorted table := by
  obtain ⟨fields, -, hfield⟩ := Option.bind_eq_some_iff.1 h
  rw [Json.field] at hfield
  split at hfield
  · cases hfield
    exact .nil
  · exact isSorted_of_table? hfield

theorem isSorted_triggers_of_read? {json : Written} {draft : ConfigDraft}
    (h : ConfigDraft.read? json = some draft) : NameMap.IsSorted draft.triggers := by
  simp only [ConfigDraft.read?, Option.bind_eq_bind, Option.bind_eq_some_iff] at h
  -- the sections in the order in which they are read, the triggers last but two
  obtain ⟨fields, -, _, -, _, -, _, -, _, -, _, -, _, -, _, -, triggers, htriggers,
    _, -, _, -, h⟩ := h
  cases h
  cases triggers with
  | none => exact .nil
  | some table =>
      rw [Json.optional, Json.field] at htriggers
      split at htriggers
      · cases htriggers
      · unfold Written.orNull? at htriggers
        split at htriggers
        · cases htriggers
        · obtain ⟨read, hread, hsame⟩ := Option.map_eq_some_iff.1 htriggers
          cases hsame
          exact isSorted_of_section? hread

theorem isSorted_triggers_of_ofJson {engine : Condition.Engine} {bytes : List UInt8} {c : Config}
    (h : ofJson engine bytes = .ok c) : NameMap.IsSorted c.triggers := by
  obtain ⟨draft, hread, hdraft⟩ := ofJson_eq_ok_iff.1 h
  obtain ⟨json, -, hread⟩ := Option.bind_eq_some_iff.1 hread
  have hsorted := isSorted_triggers_of_read? hread
  have hnames := map_fst_of_checkTable (accepted_of_ofDraft hdraft).triggers
  rw [NameMap.IsSorted, ← List.pairwise_map (f := Prod.fst)] at hsorted ⊢
  exact hnames ▸ hsorted

/-- In every configuration that a client takes over, the triggers stand in the order of their
names. -/
theorem isSorted_triggers_of_configOf {c : Client} {bytes : List UInt8} {config : Config}
    (h : c.configOf bytes = .ok config) : NameMap.IsSorted config.triggers := by
  cases Client.trusts_of_configOf h with
  | signed _ hread => exact isSorted_triggers_of_ofJson hread
  | blank => exact .nil
  | debug _ _ hread => exact isSorted_triggers_of_ofJson hread

end Config

namespace Client

open World (Adds Ready)

variable {host : Host μ} {config : Config} {steps : Nat} {w w₁ w' : World μ} {name : String}

/-! ## What a run leaves alone -/

/-- The history has the same events of a name, and the client changed in no other way than its
events and actions may change it. -/
structure Spares (name : String) (w w' : World μ) : Prop where
  standing_eq : w'.client.standing = w.client.standing
  isStarted_eq : w'.client.store.isStarted = w.client.store.isStarted
  events_eq : w'.client.store.ledger.eventsNamed name = w.client.store.ledger.eventsNamed name

instance : Std.Refl (Spares name : World μ → World μ → Prop) := ⟨fun _ => ⟨rfl, rfl, rfl⟩⟩

instance : IsTrans (World μ) (Spares name) where
  trans _ _ _ h h' := ⟨h'.standing_eq.trans h.standing_eq, h'.isStarted_eq.trans h.isStarted_eq,
    h'.events_eq.trans h.events_eq⟩

theorem Spares.ready (h : Spares name w w') (hready : w.Ready config) : w'.Ready config where
  isUp := (congrArg Client.phase h.standing_eq).trans hready.isUp
  isStarted := h.isStarted_eq.trans hready.isStarted

/-- Where no event is recorded, none of the name is. -/
theorem spares_of_adds {presented : List (String × Action)} (h : Adds host [] presented w w') :
    Spares name w w' := by
  obtain ⟨rows, hrows, hnone⟩ := h.events_eq
  rw [List.map_eq_nil_iff.1 hnone, List.append_nil] at hrows
  exact ⟨h.standing_eq, h.isStarted_eq, congrArg (List.filter _) hrows⟩

theorem record_spares {event : Event} (h : event.name ≠ name) :
    Step.Moves (Spares name) (record host event) := by
  intro w
  by_cases hstarted : w.client.store.isStarted
  · have hstore : (record host event w).2.client.store = _ :=
      Store.recordEvent_of_isStarted hstarted
    refine ⟨rfl, ?_, ?_⟩ <;> rw [hstore]
    · rfl
    · exact Ledger.eventsNamed_addEvent_of_ne h
  · have hstore : (record host event w).2.client.store = _ :=
      Store.recordEvent_of_not_isStarted hstarted
    refine ⟨rfl, ?_, ?_⟩ <;> rw [hstore]

/-- Actions are recorded under names of their own. -/
theorem guides_spares (hname : ∀ link outcome, name ≠ actionEvent link outcome) :
    host.Guides (Spares name) (· ≠ name) where
  evaluate condition w := spares_of_adds (evaluate_adds condition w)
  present link action w := spares_of_adds (present_adds link action w)
  updatePlan w := spares_of_adds (updatePlan_adds w)
  record _ hne := record_spares hne
  action link outcome _ hevent := by
    rw [Event.name_of_ofApp hevent]
    exact (hname link outcome).symm

theorem perform_spares (hname : ∀ link outcome, name ≠ actionEvent link outcome) (steps : Nat)
    (action : String) : Act.Moves (Spares name) (perform host steps action) :=
  (moves_of_steps (guides_spares hname) steps).2 action

/-! ## Considering triggers -/

/-- What becomes of a trigger: its guard does not hold or cannot be decided, or its action is
attempted. -/
inductive Response where
  | unmet
  | undecided (err : Condition.Error)
  | attempted (outcome : Outcome)

/-- What went wrong with a trigger. -/
def Response.failure? : Response → Option ClientError
  | unmet | attempted (.ok ()) => none
  | undecided err => some (.condition err)
  | attempted (.error err) => some err

/-- A trigger is considered: its guard is asked, and its action is attempted exactly if nothing
stands in the way. -/
inductive Considers (host : Host μ) (steps : Nat) (trigger : Trigger) (w : World μ) :
    Response → World μ → Prop
  | unmet {w' : World μ} (hguard : guardSays host trigger.guard w = (.ok false, w')) :
    Considers host steps trigger w .unmet w'
  | undecided {w' : World μ} {err : Condition.Error}
    (hguard : guardSays host trigger.guard w = (.error err, w')) :
    Considers host steps trigger w (.undecided err) w'
  | attempted {w₁ w' : World μ} {outcome : Outcome}
    (hguard : guardSays host trigger.guard w = (.ok true, w₁))
    (hrun : (perform host steps trigger.action).run w₁ = (some outcome, w')) :
    Considers host steps trigger w (.attempted outcome) w'

/-- Triggers are considered one after the other, each in the world that those before have left. -/
inductive ConsidersAll (host : Host μ) (steps : Nat) :
    List Trigger → World μ → List Response → World μ → Prop
  | done {w : World μ} : ConsidersAll host steps [] w [] w
  | next {w w₁ w' : World μ} {trigger : Trigger} {rest : List Trigger} {response : Response}
    {responses : List Response} (hfirst : Considers host steps trigger w response w₁)
    (hrest : ConsidersAll host steps rest w₁ responses w') :
    ConsidersAll host steps (trigger :: rest) w (response :: responses) w'

/-- The last failure of several triggers. -/
def lastFailure (responses : List Response) : Option ClientError :=
  (responses.filterMap Response.failure?).getLast?

theorem lastFailure_cons (response : Response) (responses : List Response) :
    lastFailure (response :: responses) = (lastFailure responses).or response.failure? := by
  rw [lastFailure, lastFailure, List.filterMap_cons]
  cases response.failure? with
  | none => rw [Option.or_none]
  | some err =>
      rw [List.getLast?_cons]
      cases (responses.filterMap Response.failure?).getLast? <;> rfl

/-- The first trigger is considered, and then the others. -/
theorem runTriggers_cons_run (perform : String → Act μ Outcome) (failure : Option ClientError)
    (trigger : Trigger) (rest : List Trigger) (w : World μ) :
    (runTriggers host perform failure (trigger :: rest)).run w =
      match guardSays host trigger.guard w with
      | (.error err, w₁) => (runTriggers host perform (some (.condition err)) rest).run w₁
      | (.ok false, w₁) => (runTriggers host perform failure rest).run w₁
      | (.ok true, w₁) =>
        match (perform trigger.action).run w₁ with
        | (none, w₂) => (none, w₂)
        | (some (.ok ()), w₂) => (runTriggers host perform failure rest).run w₂
        | (some (.error err), w₂) => (runTriggers host perform (some err) rest).run w₂ := by
  rw [runTriggers, Act.run_step_apply, allows_apply]
  rcases guardSays host trigger.guard w with ⟨err | _ | _, w₁⟩
  · rfl
  · rfl
  · change (perform trigger.action >>= _ : Act μ (Option ClientError)).run w₁ = _
    rw [Act.run_bind_apply]
    dsimp only
    rcases (perform trigger.action).run w₁ with ⟨_ | _ | _, w₂⟩ <;> rfl

theorem runTriggers_cons_run_iff {trigger : Trigger} {rest : List Trigger}
    {failure failed : Option ClientError} :
    (runTriggers host (perform host steps) failure (trigger :: rest)).run w = (some failed, w') ↔
      ∃ response w₁, Considers host steps trigger w response w₁ ∧
        (runTriggers host (perform host steps) (response.failure?.or failure) rest).run w₁ =
          (some failed, w') := by
  rw [runTriggers_cons_run]
  constructor
  · intro h
    rcases hguard : guardSays host trigger.guard w with ⟨err | _ | _, w₁⟩ <;> rw [hguard] at h
    · exact ⟨_, w₁, .undecided hguard, h⟩
    · exact ⟨_, w₁, .unmet hguard, h⟩
    · dsimp only at h
      rcases hrun : (perform host steps trigger.action).run w₁ with ⟨_ | _ | _, w₂⟩ <;>
        rw [hrun] at h
      · cases h
      · exact ⟨_, w₂, .attempted hguard hrun, h⟩
      · exact ⟨_, w₂, .attempted hguard hrun, h⟩
  · rintro ⟨response, w₁, hconsiders, h⟩
    cases hconsiders with
    | unmet hguard | undecided hguard =>
        rw [hguard]
        exact h
    | @attempted _ _ outcome hguard hrun =>
        rw [hguard]
        dsimp only
        rw [hrun]
        cases outcome <;> exact h

/-- All triggers are considered, and of the failures the last one is answered. -/
theorem runTriggers_run_iff {triggers : List Trigger} {failure failed : Option ClientError} :
    (runTriggers host (perform host steps) failure triggers).run w = (some failed, w') ↔
      ∃ responses, ConsidersAll host steps triggers w responses w' ∧
        failed = (lastFailure responses).or failure := by
  induction triggers generalizing w failure with
  | nil =>
      constructor
      · rintro ⟨⟩
        exact ⟨[], .done, rfl⟩
      · rintro ⟨_, ⟨⟩, rfl⟩
        rfl
  | cons trigger rest ih =>
      rw [runTriggers_cons_run_iff]
      constructor
      · rintro ⟨response, w₁, hfirst, hrun⟩
        obtain ⟨responses, hrest, rfl⟩ := ih.1 hrun
        exact ⟨_, .next hfirst hrest, by rw [lastFailure_cons, Option.or_assoc]⟩
      · rintro ⟨_, hall, rfl⟩
        cases hall with
        | next hfirst hrest =>
            exact ⟨_, _, hfirst, ih.2 ⟨_, hrest, by rw [lastFailure_cons, Option.or_assoc]⟩⟩

section Ends

variable (hname : ∀ link outcome, name ≠ actionEvent link outcome)

include hname

theorem Considers.spares {trigger : Trigger} {response : Response}
    (h : Considers host steps trigger w response w') : Spares name w w' := by
  cases h with
  | unmet hguard | undecided hguard => exact spares_of_adds (adds_of_guardSays hguard)
  | @attempted w₁ _ _ hguard hrun =>
      have hperform : Spares name w₁ ((perform host steps trigger.action).run w₁).2 :=
        perform_spares hname steps trigger.action w₁
      rw [hrun] at hperform
      exact IsTrans.trans _ _ _ (spares_of_adds (adds_of_guardSays hguard)) hperform

/-- All triggers can be considered where performing their actions ends. -/
theorem exists_considersAll {triggers : List Trigger} (hready : w.Ready config)
    (hends : ∀ trigger ∈ triggers, ∀ u : World μ, u.Ready config →
      ((perform host steps trigger.action).run u).1.isSome) :
    ∃ responses w', ConsidersAll host steps triggers w responses w' := by
  induction triggers generalizing w with
  | nil => exact ⟨[], w, .done⟩
  | cons trigger rest ih =>
      obtain ⟨hfirst, hrest⟩ := List.forall_mem_cons.1 hends
      suffices hconsiders : ∃ response w₁, Considers host steps trigger w response w₁ by
        obtain ⟨response, w₁, hconsiders⟩ := hconsiders
        obtain ⟨responses, w', hall⟩ := ih ((hconsiders.spares hname).ready hready) hrest
        exact ⟨_, _, .next hconsiders hall⟩
      rcases hguard : guardSays host trigger.guard w with ⟨err | _ | _, w₁⟩
      · exact ⟨_, _, .undecided hguard⟩
      · exact ⟨_, _, .unmet hguard⟩
      · obtain ⟨outcome, houtcome⟩ := Option.isSome_iff_exists.1
          (hfirst w₁ (hready.of_adds (adds_of_guardSays hguard)))
        exact ⟨_, _, .attempted hguard (Prod.ext houtcome rfl)⟩

end Ends

/-! ## Sending an event -/

/-- What follows an event ends as soon as all triggers that listen to it have been considered. -/
theorem follow_run_iff (hconfig : w.client.config = some config) {event : Event}
    {outcome : Outcome} :
    (follow host steps event).run w = (some outcome, w') ↔
      ∃ responses w₂, ConsidersAll host steps (config.triggersFor event.name) w responses w₂ ∧
        w' = (updatePlanFor host event.name w₂).2 ∧
        outcome = failureOutcome (lastFailure responses) := by
  rw [follow_run, hconfig, Option.elim_some]
  constructor
  · intro h
    rcases hrun : (runTriggers host (perform host steps) none
      (config.triggersFor event.name)).run w with ⟨_ | failed, w₂⟩ <;> rw [hrun] at h <;> cases h
    obtain ⟨responses, hall, rfl⟩ := runTriggers_run_iff.1 hrun
    exact ⟨responses, w₂, hall, rfl, by rw [Option.or_none]⟩
  · rintro ⟨responses, w₂, hall, rfl, rfl⟩
    rw [runTriggers_run_iff.2 ⟨responses, hall, rfl⟩, Option.or_none]

/-- Planning again if an event calls for it. -/
theorem updatePlanFor_apply (event : String) (w : World μ) :
    (updatePlanFor host event w).2 =
      if w.client.needsPlan event then (updatePlan host w).2 else w := by
  change ((if w.client.needsPlan event then updatePlan host else pure ()) w).2 = _
  split <;> rfl

/-- An event that can be recorded is recorded, and then followed. -/
theorem sendEvent_run (hready : w.Ready config) {event : Event}
    (hevent : Event.ofApp name = .ok event) (steps : Nat) :
    (sendEvent host (steps + 1) name).run w =
      (follow host steps event).run (record host event w).2 := by
  have hne : event ≠ .builtIn .enteredForeground := fun heq =>
    Event.name_ne_of_ofApp hevent .enteredForeground (congrArg Event.name heq)
  rw [sendEvent, sendThrough, hevent]
  dsimp only
  rw [process_run, if_pos hready.client_isStarted, if_neg hne,
    respond_run_of_isStarted _ hready.isStarted]

/-- **One failing trigger does not silence another.** Take a client that has started with a
configuration, and whose history can be written. An event of the app, under a name that records no
action, is recorded before anything else happens. Then all triggers that listen to it are
considered, in the order of their names, from the world in which it has just been recorded: each
guard is asked in the world that the triggers before have left, and the action is attempted exactly
if nothing stands in the way. After the last trigger, whatever has failed, the notifications are
planned again if the event calls for it. The answer is the last failure, if there was one. The event
itself has been recorded once, whatever else has, and there is an answer if performing the actions
of the triggers comes to an end. -/
theorem all_listening_triggers_are_considered (hup : w.client.IsUp config)
    (hstarted : w.client.store.isStarted) {event : Event} (hevent : Event.ofApp name = .ok event)
    (hname : ∀ link outcome, name ≠ actionEvent link outcome) (host : Host μ) (steps : Nat) :
    let w₁ := (record host event w).2
    let row : EventRow := ⟨event, (host.now w.memory).1⟩
    let listening := config.triggers.filter fun entry => entry.2.event = name
    w₁.client.store.ledger.events = w.client.store.ledger.events ++ [row] ∧
      (∀ (c : Client) bytes, c.configOf bytes = .ok config → NameMap.IsSorted listening) ∧
      (∀ outcome w', (sendEvent host (steps + 1) name).run w = (some outcome, w') ↔
        ∃ responses w₂, ConsidersAll host steps (listening.map Prod.snd) w₁ responses w₂ ∧
          w' = (if w₂.client.needsPlan name then (updatePlan host w₂).2 else w₂) ∧
          outcome = failureOutcome (lastFailure responses)) ∧
      ((sendEvent host (steps + 1) name).run w).2.client.store.ledger.eventsNamed name =
        w.client.store.ledger.eventsNamed name ++ [row] ∧
      ((∀ entry ∈ listening, ∀ u : World μ, u.Ready config →
          ((perform host steps entry.2.action).run u).1.isSome) →
        ((sendEvent host (steps + 1) name).run w).1.isSome) := by
  intro w₁ row listening
  have hready : w.Ready config := ⟨hup, hstarted⟩
  have hready₁ : w₁.Ready config := hready.of_adds (record_adds hstarted event)
  have hnamed : event.name = name := Event.name_of_ofApp hevent
  have hledger : w₁.client.store.ledger = w.client.store.ledger.addEvent event row.stamp :=
    congrArg Store.ledger (Store.recordEvent_of_isStarted hstarted)
  have hlistening : listening.map Prod.snd = config.triggersFor event.name := by
    rw [hnamed, Config.triggersFor, List.filter_map]
    rfl
  have hsend : (sendEvent host (steps + 1) name).run w = (follow host steps event).run w₁ :=
    sendEvent_run hready hevent steps
  refine ⟨congrArg Ledger.events hledger, fun c bytes hread => ?_, fun outcome w' => ?_, ?_,
    fun hends => ?_⟩
  · exact (Config.isSorted_triggers_of_configOf hread).filter _
  · rw [hsend, follow_run_iff hready₁.config_eq, hlistening]
    simp only [updatePlanFor_apply, hnamed]
  · have hfollow : Spares name w₁ ((follow host steps event).run w₁).2 :=
      follow_moves (guides_spares hname) (perform_spares hname steps) event w₁
    rw [hsend, hfollow.events_eq, hledger, Ledger.eventsNamed_addEvent, if_pos hnamed]
  · have hperforms : ∀ trigger ∈ listening.map Prod.snd, ∀ u : World μ, u.Ready config →
        ((perform host steps trigger.action).run u).1.isSome :=
      List.forall_mem_map.2 hends
    obtain ⟨responses, w₂, hall⟩ := exists_considersAll hname hready₁ hperforms
    rw [hlistening] at hall
    rw [hsend, (follow_run_iff hready₁.config_eq).2 ⟨responses, w₂, hall, rfl, rfl⟩]
    rfl

/-- A shop whose first trigger runs an action that is refused. The second one does not want it
again, the third one waits for the refusal, and the guard of the fourth one cannot be decided. -/
def shop : Config :=
  { Config.empty "app" with
    actions := [("refuse", ⟨none, .reviewPrompt⟩), ("thanks", ⟨none, .link .null⟩)]
    triggers :=
      [("first", ⟨"buy", "refuse", none⟩), ("other", ⟨"sell", "thanks", none⟩),
        ("second", ⟨"buy", "refuse", some (.ofSource "1 > 2")⟩),
        ("third", ⟨"buy", "thanks", some (.ofSource "eventCount('action_error:refuse') == 1")⟩),
        ("unclear", ⟨"buy", "thanks", some (.ofSource "1 % 0 == 1")⟩)] }

/-- A host that refuses one action. -/
def picky : Host Unit :=
  { Host.quiet with
    present := fun name _ memory => (if name = "refuse" then .error "busy" else .ok (), memory) }

/-- The refusal keeps nothing from happening. The third trigger finds it in the history and says
thanks, the fourth one gives the answer, and the notifications are planned. -/
theorem refusal_silences_nobody :
    let w : World Unit := ⟨running shop, ()⟩
    let run := (sendEvent picky 4 "buy").run w
    run.1 = some (.error (.condition (.evaluation .divideByZero))) ∧
      run.2.client.store.ledger.events.map EventRow.event =
        [⟨"buy", .custom⟩, ⟨"action_error:refuse", .custom⟩, ⟨"action:thanks", .custom⟩] ∧
      run.2.client.store.ledger.eventsNamed "buy" = [⟨⟨"buy", .custom⟩, ⟨0⟩⟩] ∧
      run.2.client.plan.isSome := by
  intro w run
  have hname : ∀ link outcome, "buy" ≠ actionEvent link outcome := by
    intro link outcome heq
    have hchars := congrArg String.toList heq
    cases outcome <;> simp [actionEvent, String.toList_append] at hchars
  have hup : w.client.IsUp shop := rfl
  have hevent : Event.ofApp "buy" = .ok ⟨"buy", .custom⟩ := by decide +kernel
  obtain ⟨-, -, hends, honce, -⟩ :=
    all_listening_triggers_are_considered hup rfl hevent hname picky 3
  have hlistening : (shop.triggers.filter fun entry => entry.2.event = "buy").map Prod.snd =
      [⟨"buy", "refuse", none⟩, ⟨"buy", "refuse", some (.ofSource "1 > 2")⟩,
        ⟨"buy", "thanks", some (.ofSource "eventCount('action_error:refuse') == 1")⟩,
        ⟨"buy", "thanks", some (.ofSource "1 % 0 == 1")⟩] := rfl
  rw [hlistening] at hends
  let w₁ := (record picky ⟨"buy", .custom⟩ w).2
  let w₂ := ((perform picky 3 "refuse").run w₁).2
  let w₃ := (guardSays picky (some (.ofSource "1 > 2")) w₂).2
  let guard := Condition.ofSource "eventCount('action_error:refuse') == 1"
  let w₄ := (guardSays picky (some guard) w₃).2
  let w₅ := ((perform picky 3 "thanks").run w₄).2
  have hrefused : ((perform picky 3 "refuse").run w₁).1 =
      some (.error (.action "refuse" "busy")) := by decide +kernel
  have hunmet : (guardSays picky (some (.ofSource "1 > 2")) w₂).1 = .ok false := by decide +kernel
  have hfound : (guardSays picky (some guard) w₃).1 = .ok true := by decide +kernel
  have hthanks : ((perform picky 3 "thanks").run w₄).1 = some (.ok ()) := by decide +kernel
  have hunclear : (guardSays picky (some (.ofSource "1 % 0 == 1")) w₅).1 =
      .error (.evaluation .divideByZero) := by decide +kernel
  have hfirst : Considers picky 3 ⟨"buy", "refuse", none⟩ w₁
      (.attempted (.error (.action "refuse" "busy"))) w₂ := .attempted rfl (Prod.ext hrefused rfl)
  have hsecond : Considers picky 3 ⟨"buy", "refuse", some (.ofSource "1 > 2")⟩ w₂ .unmet w₃ :=
    .unmet (Prod.ext hunmet rfl)
  have hthird : Considers picky 3 ⟨"buy", "thanks", some guard⟩ w₃ (.attempted (.ok ())) w₅ :=
    .attempted (Prod.ext hfound rfl) (Prod.ext hthanks rfl)
  have hfourth : Considers picky 3 ⟨"buy", "thanks", some (.ofSource "1 % 0 == 1")⟩ w₅
      (.undecided (.evaluation .divideByZero)) _ := .undecided (Prod.ext hunclear rfl)
  have hall := ConsidersAll.next hfirst (.next hsecond (.next hthird (.next hfourth .done)))
  have hrun := (hends _ _).2 ⟨_, _, hall, rfl, rfl⟩
  have hafter : run.2 = ((sendEvent picky (3 + 1) "buy").run w).2 := rfl
  refine ⟨congrArg Prod.fst hrun, by decide +kernel, ?_, by decide +kernel⟩
  rw [hafter, honce]
  rfl

end Client

end Targeting
