/-
# Events and actions

An event is recorded first; then the triggers that listen to it are considered, in the order of
their names and whatever happens to earlier ones, and at last the notifications are planned
again if the event calls for it. An action is performed if its guard allows it, and that it was
performed, or failed, is itself an event. So actions and events may set off each other.
-/

import Targeting.Client.World

namespace Targeting.Client

open Calendar (Instant)

variable {μ : Type}

/-! ### Sessions -/

/-- Whether the session that has begun goes on. -/
def isInSession (c : Client) (now : Instant) : Bool :=
  match c.sessionStart with
  | some start => now.micros - start.micros < c.sessionGap
  | none => false

/-- Whether the app's return to the foreground begins a session: it was never in the background,
it was there for long, or it was never in the foreground. -/
def beginsSession (c : Client) (now : Instant) : Except StoreError Bool := do
  let background ← c.store.latestEvent BuiltInEvent.enteredBackground.name
  match background with
  | none => pure true
  | some left =>
    if c.sessionGap < now.micros - left.micros then pure true
    else do
      let foreground ← c.store.latestEvent BuiltInEvent.enteredForeground.name
      pure foreground.isNone

/-- Begin a session if the app's return to the foreground does. -/
def updateSession (host : Host μ) (process : Event → Act μ Outcome) : Act μ Unit := do
  let t ← now host
  let c ← current
  if c.isInSession t then pure ()
  else
    match c.beginsSession t with
    | .ok true => do
      let outcome ← process (.builtIn .sessionStart)
      match outcome with
      | .ok () => do
        let start ← now host
        change fun c => { c with sessionStart := some start }
      | .error _ => pure ()
    | .ok false | .error _ => pure ()

/-! ### Triggers -/

/-- Whether a guard allows what it guards; without a guard everything is allowed. -/
def allows (host : Host μ) : Option Condition → Step μ (Except ClientError Bool)
  | none => pure (.ok true)
  | some guard => do
    let result ← evaluate host guard
    pure (result.mapError ClientError.condition)

/-- Consider triggers in order, performing their actions. Answers the last failure. -/
def runTriggers (host : Host μ) (perform : String → Act μ Outcome) :
    Option ClientError → List Trigger → Act μ (Option ClientError)
  | failure, [] => pure failure
  | failure, trigger :: rest => do
    let allowed ← allows host trigger.guard
    match allowed with
    | .error error => runTriggers host perform (some error) rest
    | .ok false => runTriggers host perform failure rest
    | .ok true => do
      let outcome ← perform trigger.action
      match outcome with
      | .ok () => runTriggers host perform failure rest
      | .error error => runTriggers host perform (some error) rest

/-! ### Actions -/

/-- Run an action that may be performed. Unknown actions do nothing. -/
def runAction (host : Host μ) (perform : String → Act μ Outcome) (name : String) :
    Action → Act μ Outcome
  | .fork fork => do
    let passed ← evaluate host fork.condition
    match passed with
    | .error error => pure (.error (.condition error))
    | .ok passed =>
      match fork.target passed with
      | some next => perform next
      | none => pure (.ok ())
  | .unknown _ _ => pure (.ok ())
  | action => present host name action

/-- Name of the event that records an action. -/
def actionEvent (name : String) : Outcome → String
  | .ok () => "action:" ++ name
  | .error _ => "action_error:" ++ name

/-- Process the event that the app sends under a name. -/
def sendThrough (process : Event → Act μ Outcome) (name : String) : Act μ Outcome :=
  match Event.ofApp name with
  | .ok event => process event
  | .error error => pure (.error (.event error))

mutual

/-- Record an event and do what it sets off. -/
def process (host : Host μ) : Nat → Event → Act μ Outcome
  | 0, _ => failure
  | steps + 1, event => do
    let c ← current
    if !c.isStarted then pure (.error .notStarted)
    else do
      if event = .builtIn .enteredForeground then updateSession host (process host steps)
      let recorded ← record host event
      match recorded with
      | .error error => pure (.error (.store error))
      | .ok () => do
        let c ← current
        let triggers := c.config.elim [] fun config => config.triggersFor event.name
        let failed ← runTriggers host (perform host steps) none triggers
        updatePlanFor host event.name
        match failed with
        | some error => pure (.error error)
        | none => pure (.ok ())

/-- Perform an action of the configuration by name. -/
def perform (host : Host μ) : Nat → String → Act μ Outcome
  | 0, _ => failure
  | steps + 1, name => do
    let c ← current
    match c.isStarted, c.config with
    | true, some config =>
      match config.action? name with
      | none => pure (.error (.notFound .action name))
      | some guarded => do
        let allowed ← allows host guarded.guard
        match allowed with
        | .error error => pure (.error error)
        | .ok false => pure (.ok ())
        | .ok true => do
          let outcome ← runAction host (perform host steps) name guarded.action
          let _ ← sendThrough (process host steps) (actionEvent name outcome)
          pure outcome
    | _, _ => pure (.error .notStarted)

end

end Targeting.Client
