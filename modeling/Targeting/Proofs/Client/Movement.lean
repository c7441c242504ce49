/-
# Time passes and no session begins

Most of what a client does is calm: time passes, events may be recorded, and the start of the
session stays as it is, as do the events that a session began. Calmness is a preorder on worlds, so
it goes from the steps of an operation to the operation, and by induction on the nested steps to all
events and actions but the beginning of a session and the app's return to the foreground. An app
cannot send those itself.

That time passes means that the host has a clock that none of its answers turns back.
-/

import Targeting.Proofs.Client.Admission
import Targeting.Proofs.Client.Moves
import Targeting.Proofs.History.Run

namespace Targeting

open Calendar (Instant)

variable {μ α β : Type}

/-- A clock that the host never turns back while a started client asks it. -/
structure Host.Ascends (host : Host μ) (clock : μ → Instant) : Prop where
  present : ∀ name action memory, clock memory ≤ clock (host.present name action memory).2
  canOpen : ∀ url memory, clock memory ≤ clock (host.canOpen url memory).2
  takePlan : ∀ plan memory, clock memory ≤ clock (host.takePlan plan memory)
  property : ∀ name memory, clock memory ≤ clock (host.property name memory).2
  random : ∀ memory, clock memory ≤ clock (host.random memory).2
  le_now : ∀ memory, clock memory ≤ (host.now memory).1
  now_le : ∀ memory, (host.now memory).1 ≤ clock (host.now memory).2

theorem Host.Ascends.now {host : Host μ} {clock : μ → Instant} (h : host.Ascends clock)
    (memory : μ) : clock memory ≤ clock (host.now memory).2 :=
  Instant.le_trans (h.le_now memory) (h.now_le memory)

/-! ## What conditions do -/

section Surroundings

variable {clock : μ → Instant} {host : Host μ}

/-- Time passes, and no event is recorded. -/
structure Client.Unseen (clock : μ → Instant) (s s' : Surroundings μ) : Prop where
  clock_le : clock s.2 ≤ clock s'.2
  events_eq : s'.1.ledger.events = s.1.ledger.events

namespace Client

instance : Std.Refl (Unseen clock) := ⟨fun _ => ⟨Instant.le_refl _, rfl⟩⟩

instance : IsTrans (Surroundings μ) (Unseen clock) where
  trans _ _ _ h h' := ⟨Instant.le_trans h.clock_le h'.clock_le, h'.events_eq.trans h.events_eq⟩

theorem surrounds_unseen (hclock : host.Ascends clock) : host.Surrounds (Unseen clock) where
  canOpen url s := ⟨hclock.canOpen url s.2, rfl⟩
  property name s := ⟨hclock.property name s.2, rfl⟩
  random s := ⟨hclock.random s.2, rfl⟩
  now s := ⟨hclock.now s.2, rfl⟩
  recordSample s name value sampling t :=
    ⟨Instant.le_refl _, s.1.events_recordSample ⟨name, value, sampling, t⟩⟩
  stableRandom s candidate t := ⟨Instant.le_refl _, s.1.events_stableRandom candidate t⟩

theorem environment_unseen (hclock : host.Ascends clock) (c : Client) :
    (c.environment host).Moves (Unseen clock) :=
  environment_moves (surrounds_unseen hclock) c

end Client

end Surroundings

/-! ## Calm -/

/-- The events by which a client has recorded that a session began. -/
def World.sessions (w : World μ) : List EventRow :=
  w.client.store.ledger.eventsNamed BuiltInEvent.sessionStart.name

/-- Time passes and no session begins. -/
structure World.Calm (clock : μ → Instant) (w w' : World μ) : Prop where
  clock_le : clock w.memory ≤ clock w'.memory
  sessions_eq : w'.sessions = w.sessions
  start_eq : w'.client.sessionStart = w.client.sessionStart
  gap_eq : w'.client.sessionGap = w.client.sessionGap

namespace Client

open World (Calm)

variable {clock : μ → Instant} {host : Host μ}

instance : Std.Refl (Calm clock) := ⟨fun _ => ⟨Instant.le_refl _, rfl, rfl, rfl⟩⟩

instance : IsTrans (World μ) (Calm clock) where
  trans _ _ _ h h' := ⟨Instant.le_trans h.clock_le h'.clock_le, h'.sessions_eq.trans h.sessions_eq,
    h'.start_eq.trans h.start_eq, h'.gap_eq.trans h.gap_eq⟩

theorem ask_calm {question : μ → α × μ} (h : ∀ memory, clock memory ≤ clock (question memory).2) :
    Step.Moves (Calm clock) (ask question) :=
  fun w => ⟨h w.memory, rfl, rfl, rfl⟩

theorem inSurroundings_calm {f : Client → Surroundings μ → α × Surroundings μ}
    (h : ∀ c s, Unseen clock s (f c s).2) : Step.Moves (Calm clock) (inSurroundings f) := by
  intro w
  obtain ⟨hclock, hevents⟩ := h w.client (w.client.store, w.memory)
  exact ⟨hclock, congrArg (List.filter _) hevents, rfl, rfl⟩

theorem change_calm {f : Client → Client}
    (hsessions : ∀ c, (f c).store.ledger.events = c.store.ledger.events)
    (hstart : ∀ c, (f c).sessionStart = c.sessionStart)
    (hgap : ∀ c, (f c).sessionGap = c.sessionGap) :
    Step.Moves (Calm clock) (change f : Step μ Unit) :=
  fun w => ⟨Instant.le_refl _, congrArg (List.filter _) (hsessions w.client), hstart w.client,
    hgap w.client⟩

theorem changeRegistry_calm (registry : Registry) :
    Step.Moves (Calm clock) (change fun c => { c with registry := registry } : Step μ Unit) :=
  change_calm (fun _ => rfl) (fun _ => rfl) fun _ => rfl

section Ascending

variable (hclock : host.Ascends clock)

include hclock

theorem now_calm : Step.Moves (Calm clock) (now host) := ask_calm hclock.now

theorem evaluate_calm (condition : Condition) : Step.Moves (Calm clock) (evaluate host condition) :=
  inSurroundings_calm fun c s => condition.evaluate_moves (environment_unseen hclock c) s

theorem present_calm (name : String) (action : Action) :
    Step.Moves (Calm clock) (present host name action) :=
  (ask_calm (hclock.present name action)).bind fun _ => .pure _

theorem recordSample_calm (name : String) (value : PropertyValue) (sampling : Sampling) :
    Step.Moves (Calm clock) (recordSample host name value sampling) := by
  refine (now_calm hclock).bind fun t => change_calm (fun c => ?_) (fun _ => rfl) fun _ => rfl
  exact c.store.events_recordSample ⟨name, value, sampling, t⟩

theorem recordSamples_calm (samples : List (String × PropertyValue × Sampling)) :
    Step.Moves (Calm clock) (recordSamples host samples) := by
  induction samples with
  | nil => exact .pure _
  | cons first rest ih => exact (recordSample_calm hclock _ _ _).bind fun _ => ih

theorem updatePlan_calm : Step.Moves (Calm clock) (updatePlan host) := by
  refine (now_calm hclock).bind fun t => Step.Moves.current.bind fun c => ?_
  split
  · exact .pure _
  · refine (inSurroundings_calm fun c s => ?_).bind fun plan w => ?_
    · exact Plan.make_moves (environment_unseen hclock c) _ _ _ _ s
    · exact ⟨hclock.takePlan plan w.memory, rfl, rfl, rfl⟩

/-! ### Events and actions -/

/-- Recording an event of another name. -/
theorem record_calm {event : Event} (h : event.name ≠ BuiltInEvent.sessionStart.name) :
    Step.Moves (Calm clock) (record host event) := by
  refine fun w => ⟨hclock.now w.memory, ?_, rfl, rfl⟩
  change ((w.client.store.recordEvent event _).2.ledger.eventsNamed _) = _
  by_cases hstarted : w.client.store.isStarted
  · rw [Store.recordEvent_of_isStarted hstarted]
    exact Ledger.eventsNamed_addEvent_of_ne h
  · rw [Store.recordEvent_of_not_isStarted hstarted]
    rfl

/-- All small steps are calm but recording the beginning of a session. -/
theorem guides_calm : host.Guides (Calm clock) (· ≠ BuiltInEvent.sessionStart.name) where
  evaluate := evaluate_calm hclock
  present := present_calm hclock
  updatePlan := updatePlan_calm hclock
  record _ hname := record_calm hclock hname
  action _ _ _ hevent := Event.name_ne_of_ofApp hevent _

/-- Actions are calm, and so are events that are neither the beginning of a session nor the app's
return to the foreground. -/
theorem process_calm (steps : Nat) {event : Event}
    (hsession : event.name ≠ BuiltInEvent.sessionStart.name)
    (hforeground : event.name ≠ BuiltInEvent.enteredForeground.name) :
    Act.Moves (Calm clock) (process host steps event) :=
  (moves_of_steps (guides_calm hclock) steps).1 event hsession hforeground

theorem perform_calm (steps : Nat) (name : String) :
    Act.Moves (Calm clock) (perform host steps name) :=
  (moves_of_steps (guides_calm hclock) steps).2 name

theorem follow_calm (steps : Nat) (event : Event) :
    Act.Moves (Calm clock) (follow host steps event) :=
  follow_moves (guides_calm hclock) (perform_calm hclock steps) event

theorem respond_calm (steps : Nat) {event : Event}
    (h : event.name ≠ BuiltInEvent.sessionStart.name) :
    Act.Moves (Calm clock) (respond host steps event) :=
  respond_moves (guides_calm hclock) (perform_calm hclock steps) h

theorem sendEvent_calm (steps : Nat) (name : String) :
    Act.Moves (Calm clock) (sendEvent host steps name) :=
  sendThrough_moves fun _ hevent => process_calm hclock steps
    (Event.name_ne_of_ofApp hevent _) (Event.name_ne_of_ofApp hevent _)

/-! ### Calls -/

omit hclock in
theorem register_calm (name : String) (provider : Provider) :
    Step.Moves (Calm clock) (register name provider : Step μ Outcome) :=
  Step.Moves.current.bind fun _ => (changeRegistry_calm _).bind fun _ => .pure _

theorem setCustom_calm (name : String) (value : PropertyValue) :
    Step.Moves (Calm clock) (setCustom host name value) := by
  refine Step.Moves.current.bind fun c => (changeRegistry_calm _).bind fun _ => ?_
  split
  · exact .pure _
  · exact (recordSample_calm hclock _ _ _).bind fun _ => .pure _

theorem setCustomJson_calm (bytes : List UInt8) :
    Step.Moves (Calm clock) (setCustomJson host bytes) := by
  have hsurrounds := surrounds_unseen hclock
  have hsamples (names : List String) : Step.Moves (Calm clock) (samplesOf host names) :=
    (inSurroundings_calm fun c s => valuesOf_moves hsurrounds c.registry c.sessionStart names s).bind
      fun _ => .pure _
  refine Step.Moves.current.bind fun c => (changeRegistry_calm _).bind fun _ => ?_
  split
  · exact .pure _
  · refine (hsamples _).bind fun samples => ?_
    exact (recordSamples_calm hclock samples).bind fun _ => .pure _

theorem notificationTapped_calm (steps : Nat) (id : String) :
    Act.Moves (Calm clock) (notificationTapped host steps id) := by
  refine .step .current fun c => ?_
  split
  · exact .pure _
  · dsimp only
    split
    · exact perform_calm hclock steps _
    · exact .pure _

theorem backgroundWork_calm : Step.Moves (Calm clock) (backgroundWork host) := by
  refine Step.Moves.current.bind fun c => ?_
  split
  · exact (updatePlan_calm hclock).bind fun _ => .pure _
  · exact .pure _

theorem checkNamed_calm (steps : Nat) (name : String) :
    Act.Moves (Calm clock) (checkNamed host steps name) := by
  refine .step .current fun c => ?_
  split
  · split
    · exact .pure _
    · refine .step (evaluate_calm hclock _) fun result => ?_
      exact (sendEvent_calm hclock steps _).bind fun _ => .pure _
  · exact .pure _

theorem check_calm (source : String) : Step.Moves (Calm clock) (check host source) := by
  refine Step.Moves.current.bind fun c => ?_
  split
  · exact .pure _
  · exact (evaluate_calm hclock _).bind fun _ => .pure _

/-- All calls of a client that is up are calm but the app's return to the foreground. -/
theorem run_calm {w : World μ} {config : Config} (hup : w.client.IsUp config) (steps : Nat)
    {call : Call} (h : call ≠ .enteredForeground) : Calm clock w (call.run host steps w) := by
  cases call with
  | start =>
      rw [Call.run, start_run_of_isUp hup]
      exact refl w
  | register name provider => exact register_calm name provider w
  | setCustom name value => exact setCustom_calm hclock name value w
  | setCustomJson bytes => exact setCustomJson_calm hclock bytes w
  | sendEvent name => exact sendEvent_calm hclock steps name w
  | enteredForeground => exact absurd rfl h
  | enteredBackground => exact process_calm hclock steps (by decide) (by decide) w
  | perform name => exact perform_calm hclock steps name w
  | notificationTapped id => exact notificationTapped_calm hclock steps id w
  | backgroundWork => exact backgroundWork_calm hclock w
  | checkNamed name => exact checkNamed_calm hclock steps name w
  | check source => exact check_calm hclock source w

end Ascending

end Client

end Targeting
