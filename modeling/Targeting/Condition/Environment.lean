/-
# The world of a condition

While a condition is evaluated it asks the world: for properties, for functions of the history
and the host, for random numbers and for the time. An environment says how the world answers.
It is a value: what the world remembers between questions is a state that every question may
change, so a run is a function of the environment and the state it starts from, whatever the
world does.
-/

import Targeting.Calendar.Zone
import Targeting.Condition.Error

namespace Targeting.Condition

/-- What the world answers to a call of a function. -/
inductive Reply where
  | value (v : Value)
  | failed (message : String)
  /-- There is no such function here. -/
  | unprovided
  /-- The world broke down. -/
  | fault
  deriving Repr

/-- Everything that a condition can observe. The state `σ` is what the world remembers. -/
structure Environment (σ : Type) where
  /-- Value of a property, nil when it is absent; nothing at all when the world breaks down. -/
  property : String → σ → Option Value × σ
  /-- Result of a function that is not evaluated by the condition itself. -/
  function : String → List Value → σ → Reply × σ
  /-- A random number that stays the same for a session. -/
  sessionRandom : σ → Int64 × σ
  /-- A fresh random number. -/
  random : σ → Int64 × σ
  /-- Milliseconds since 1970. -/
  now : σ → Int64 × σ
  /-- The zone of the device. -/
  zone : Calendar.Zone

namespace Environment

/-- A world in which all properties are absent and no functions are provided. -/
def empty : Environment Unit where
  property _ s := (some .nil, s)
  function _ _ s := (.unprovided, s)
  sessionRandom s := (0, s)
  random s := (0, s)
  now s := (0, s)
  zone := .utc

/-- What was asked of a world, in order. -/
structure Inquiry where
  reads : List String
  calls : List (String × List Value)
  deriving Repr

/-- Nothing was asked. -/
def Inquiry.none : Inquiry := ⟨[], []⟩

/-- The same world, with a record of the properties read and the functions called. -/
def recorded {σ : Type} (env : Environment σ) : Environment (σ × Inquiry) where
  property name s :=
    let (answer, next) := env.property name s.1
    (answer, next, { s.2 with reads := s.2.reads ++ [name] })
  function name args s :=
    let (answer, next) := env.function name args s.1
    (answer, next, { s.2 with calls := s.2.calls ++ [(name, args)] })
  sessionRandom s :=
    let (answer, next) := env.sessionRandom s.1
    (answer, next, s.2)
  random s :=
    let (answer, next) := env.random s.1
    (answer, next, s.2)
  now s :=
    let (answer, next) := env.now s.1
    (answer, next, s.2)
  zone := env.zone

end Environment

/-- A computation that may ask the world and may fail. What the world remembers is kept also
when the computation fails. -/
abbrev Run (σ : Type) := ExceptT EvalError (StateM σ)

end Targeting.Condition
