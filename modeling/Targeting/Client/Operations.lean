/-
# What an app asks of a client

Properties may be registered and set at any time. Events, actions, named conditions and themes
need a client that has started.
-/

import Targeting.Client.Start

namespace Targeting.Client

variable {μ : Type}

/-! ### Properties -/

/-- Register a property. -/
def register (name : String) (provider : Provider) : Step μ Outcome := do
  let c ← current
  let (result, registry) := c.registry.register name provider
  change fun c => { c with registry := registry }
  pure (result.mapError ClientError.property)

/-- Set a property of the app, and record its value. -/
def setCustom (host : Host μ) (name : String) (value : PropertyValue) : Step μ Outcome := do
  let c ← current
  let (result, registry) := c.registry.setCustom name value
  change fun c => { c with registry := registry }
  match result with
  | .error error => pure (.error (.property error))
  | .ok full => do
    recordSample host full value (Registry.sampling full)
    pure (.ok ())

/-- The values of names that have one, with how they are recorded. -/
def samplesOf (host : Host μ) (names : List String) :
    Step μ (List (String × PropertyValue × Sampling)) := do
  let values ← inSurroundings fun c s => c.registry.valuesOf (answers host c.sessionStart) names s
  pure (values.map fun (name, value) => (name, value, Registry.sampling name))

/-- Set properties of the app from a JSON object. The values are recorded if all members are
accepted. -/
def setCustomJson (host : Host μ) (bytes : List UInt8) : Step μ Outcome := do
  let c ← current
  let (result, registry) := c.registry.setCustomJson bytes
  change fun c => { c with registry := registry }
  match result with
  | .error error => pure (.error (.property error))
  | .ok names => do
    let samples ← samplesOf host names
    recordSamples host samples
    pure (.ok ())

/-! ### Events and actions -/

/-- Send an event of the app. -/
def sendEvent (host : Host μ) (steps : Nat) (name : String) : Act μ Outcome :=
  sendThrough (process host steps) name

/-- The app came to the foreground. -/
def enteredForeground (host : Host μ) (steps : Nat) : Act μ Outcome :=
  process host steps (.builtIn .enteredForeground)

/-- The app went to the background. -/
def enteredBackground (host : Host μ) (steps : Nat) : Act μ Outcome :=
  process host steps (.builtIn .enteredBackground)

/-- Run the action of a notification that was tapped, found by its identifier on the device. -/
def notificationTapped (host : Host μ) (steps : Nat) (uniqueId : String) : Act μ Outcome := do
  let c ← current
  match c.config with
  | none => pure (.error .notStarted)
  | some config =>
    let tapped := config.allNotifications.find? fun n => n.uniqueId == uniqueId
    match tapped.bind Notification.tapAction with
    | some action => perform host steps action
    | none => pure (.ok ())

/-- Plan notifications again while the app is in the background. -/
def backgroundWork (host : Host μ) : Step μ Outcome := do
  let c ← current
  if c.isStarted then do
    updatePlan host
    pure (.ok ())
  else pure (.error .notStarted)

/-! ### Conditions and themes -/

/-- Name of the event that records the result of a named condition. -/
def conditionEvent (name : String) : Except Condition.Error Bool → String
  | .ok true => "ff_true:" ++ name
  | .ok false => "ff_false:" ++ name
  | .error _ => "ff_error:" ++ name

/-- Evaluate a named condition, and record the result as an event. -/
def checkNamed (host : Host μ) (steps : Nat) (name : String) : Act μ (Except ClientError Bool) := do
  let c ← current
  match c.isStarted, c.config with
  | true, some config =>
    match config.condition? name with
    | none => pure (.error (.notFound .condition name))
    | some condition => do
      let result ← evaluate host condition
      let _ ← sendEvent host steps (conditionEvent name result)
      pure (result.mapError ClientError.condition)
  | _, _ => pure (.error .notStarted)

/-- Evaluate a condition that is not part of the configuration. Nothing is recorded. -/
def check (host : Host μ) (source : String) : Step μ (Except ClientError Bool) := do
  let c ← current
  match c.engine.condition source with
  | .error error => pure (.error (.condition error))
  | .ok condition => do
    let result ← evaluate host condition
    pure (result.mapError ClientError.condition)

/-- Payload of a theme. -/
def theme? (c : Client) (name : String) : Option Json :=
  if c.isStarted then c.config.bind fun config => config.theme? name else none

end Targeting.Client
