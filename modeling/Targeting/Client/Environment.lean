/-
# What conditions observe in a client

Conditions read the registered properties, and their dynamic functions ask the history and the
host. Reading a property may record it, and asking for the stable random number may choose it,
so a condition may change the history; it never records an event.
-/

import Targeting.Client.Basic
import Targeting.Client.Host
import Targeting.Condition.Builtin

namespace Targeting

open Calendar (Instant)
open Condition (Builtin DynamicFunction Environment Reply Value)

/-- What a condition may change: the history, and what the host remembers. -/
abbrev Surroundings (μ : Type) := Store × μ

namespace Client

/-- Answers for the registered properties. A session that has not begun begins now. -/
def answers {μ : Type} (host : Host μ) (sessionStart : Option Instant) :
    PropertyAnswers (Surroundings μ) where
  app name s :=
    let (found, memory) := host.property name s.2
    (found, s.1, memory)
  history reading s := (reading.value? (some s.1), s)
  sessionStart s :=
    match sessionStart with
    | some start => (start, s)
    | none =>
      let (now, memory) := host.now s.2
      (now, s.1, memory)

/-- The reply that the store gives. -/
def storeReply {α : Type} (value : α → Value) : Except StoreError α → Reply
  | .ok a => .value (value a)
  | .error error => .failed error.message

/-- The value of a property that may be absent. -/
def valueOrNil : Option PropertyValue → Value
  | some v => .ofProperty v
  | none => .nil

/-- The reply to arguments of the wrong types. -/
def wrongArguments (name : String) : Reply := .failed ("invalid arguments for " ++ name)

/-- The reply of a dynamic function that is called by name. -/
def dynamicReply {μ : Type} (host : Host μ) (f : DynamicFunction) (name : String)
    (args : List Value) (s : Surroundings μ) : Reply × Surroundings μ :=
  match f, args with
  | .eventCount, .text event :: _ =>
    (storeReply (fun count => .int (Int64.ofNat count)) (s.1.eventCount event), s)
  | .eventCountWithLimit, .text event :: .int limit :: _ =>
    (storeReply (fun count => .int (Int64.ofNat count)) (s.1.eventCountUpTo event limit.toInt), s)
  | .latestPropertyValue, .text property :: _ =>
    (storeReply valueOrNil (s.1.latestValue property), s)
  | .propertyEver _, .text property :: value :: _ =>
    match value.toProperty? with
    | some v => (storeReply .bool (s.1.everHad property v), s)
    | none => (wrongArguments name, s)
  | .stableRandom, _ =>
    let (candidate, memory) := host.random s.2
    let (now, memory) := host.now memory
    let (result, store) := s.1.stableRandom candidate now
    (storeReply .int result, store, memory)
  | .canOpenUrl, .text url :: _ =>
    let (answer, memory) := host.canOpen url s.2
    (.value (.bool answer), s.1, memory)
  | _, _ => (wrongArguments name, s)

/-- The world of a condition in a client. -/
def environment {μ : Type} (c : Client) (host : Host μ) : Environment (Surroundings μ) where
  property name s :=
    let (found, s) := c.registry.value (answers host c.sessionStart) name s
    match found with
    | none => (some .nil, s)
    | some v =>
      if Registry.sampling name = .onUse then
        let (now, memory) := host.now s.2
        (some (.ofProperty v), s.1.recordSample name v .onUse now, memory)
      else (some (.ofProperty v), s)
  function name args s :=
    match Builtin.find? name with
    | some (.dynamic f) => dynamicReply host f name args s
    | _ => (.unprovided, s)
  sessionRandom s := (c.sessionRandom, s)
  random s :=
    let (number, memory) := host.random s.2
    (number, s.1, memory)
  now s :=
    let (now, memory) := host.now s.2
    (Int64.ofInt now.millis, s.1, memory)
  zone := host.zone

end Client

end Targeting
