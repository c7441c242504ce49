/-
# A client and its host

The state of a run is the client together with what the host remembers. Most operations of a
client are functions of that state. Those that record events may set off further actions and
events without end; they are given a number of nested steps, and have no result when it does
not suffice.
-/

import Targeting.Client.Environment

namespace Targeting

open Calendar (Instant)

/-- A client, and what its host remembers. -/
structure World (μ : Type) where
  client : Client
  memory : μ

/-- A computation over a client and its host. -/
abbrev Step (μ : Type) := StateM (World μ)

/-- A computation that may run out of steps; then it has no result. -/
abbrev Act (μ : Type) := OptionT (Step μ)

/-- What becomes of an operation. -/
abbrev Outcome := Except ClientError Unit

namespace Client

variable {μ : Type}

/-- The client as it is. -/
def current {m : Type → Type} [Functor m] [MonadState (World μ) m] : m Client :=
  World.client <$> get

/-- Change the client. -/
def change {m : Type → Type} [MonadState (World μ) m] (f : Client → Client) : m Unit :=
  modify fun w => { w with client := f w.client }

/-- Ask the host, which may remember that it was asked. -/
def ask {α : Type} (question : μ → α × μ) : Step μ α := fun w =>
  let (answer, memory) := question w.memory
  (answer, { w with memory := memory })

/-- Let the host present an action. -/
def present (host : Host μ) (name : String) (action : Action) : Step μ Outcome := do
  let shown ← ask (host.present name action)
  pure (shown.mapError (ClientError.action name))

/-- The time. -/
def now (host : Host μ) : Step μ Instant := ask host.now

/-- Run a computation over the surroundings of conditions. -/
def inSurroundings {α : Type} (f : Client → Surroundings μ → α × Surroundings μ) : Step μ α :=
  fun w =>
    let (result, store, memory) := f w.client (w.client.store, w.memory)
    (result, ⟨{ w.client with store := store }, memory⟩)

/-- Evaluate a condition against the registered properties and the history. -/
def evaluate (host : Host μ) (condition : Condition) : Step μ (Except Condition.Error Bool) :=
  inSurroundings fun c s => condition.evaluate (c.environment host) s

/-- The present value of a property. -/
def propertyValue (host : Host μ) (name : String) : Step μ (Option PropertyValue) :=
  inSurroundings fun c s => c.registry.value (answers host c.sessionStart) name s

/-- Record an event. -/
def record (host : Host μ) (event : Event) : Step μ (Except StoreError Unit) := do
  let t ← now host
  let c ← current
  let (result, store) := c.store.recordEvent event t
  change fun c => { c with store := store }
  pure result

/-- Record a sample of a property. -/
def recordSample (host : Host μ) (name : String) (value : PropertyValue) (sampling : Sampling) :
    Step μ Unit := do
  let t ← now host
  change fun c => { c with store := c.store.recordSample name value sampling t }

/-- Record samples in order. -/
def recordSamples (host : Host μ) : List (String × PropertyValue × Sampling) → Step μ Unit
  | [] => pure ()
  | (name, value, sampling) :: rest => do
    recordSample host name value sampling
    recordSamples host rest

/-! ### Plans -/

/-- Plan the notifications of the active configuration again, and tell the host. -/
def updatePlan (host : Host μ) : Step μ Unit := do
  let t ← now host
  let c ← current
  match c.config with
  | none => pure ()
  | some config => do
    let plan ← inSurroundings fun c s =>
      Plan.make c.store (c.environment host) t host.zone config.allNotifications s
    fun w => ((), ⟨{ w.client with plan := some plan }, host.takePlan plan w.memory⟩)

/-- Whether an event calls for a new plan. -/
def needsPlan (c : Client) (event : String) : Bool :=
  match c.config, c.plan with
  | none, _ => false
  | some _, none => true
  | some config, some plan => plan.needsUpdate event config.allNotifications

/-- Plan again if an event calls for it. -/
def updatePlanFor (host : Host μ) (event : String) : Step μ Unit := do
  let c ← current
  if c.needsPlan event then updatePlan host else pure ()

end Client

end Targeting
