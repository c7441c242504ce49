/-
# Events

Something that happened, by name. Two namespaces are reserved: one for the events that the
library records about itself, one for the events it knows but the app sends. A name decides by
itself which class an event belongs to, so an app can neither forge the library's events nor
invent well-known ones.
-/

import Targeting.Text.Split

namespace Targeting

/-- Who may send an event. -/
inductive EventClass where
  /-- Only the library. -/
  | builtIn
  /-- The app, under a name that the library knows. -/
  | wellKnown
  /-- The app, under a name of its own. -/
  | custom
  deriving Repr, DecidableEq

/-- The events that the library sends. -/
inductive BuiltInEvent where
  /-- The client has started. -/
  | appStart
  /-- The app came to the foreground. -/
  | enteredForeground
  /-- The app went to the background. -/
  | enteredBackground
  /-- A session has begun. -/
  | sessionStart
  deriving Repr, DecidableEq

namespace BuiltInEvent

/-- What the names of the library's events start with. -/
def nameStart : String := "io.criticalmoments.events.built_in."

/-- Name of an event. -/
def name : BuiltInEvent → String
  | appStart => nameStart ++ "app_start"
  | enteredForeground => nameStart ++ "app_entered_foreground"
  | enteredBackground => nameStart ++ "app_entered_background"
  | sessionStart => nameStart ++ "session_start"

end BuiltInEvent

namespace WellKnownEvent

/-- What the names of well-known events start with. -/
def nameStart : String := "io.criticalmoments.events.well_known."

/-- The user has signed in. -/
def signedIn : String := nameStart ++ "signed_in"

/-- Names of all well-known events. -/
def all : List String := [signedIn]

end WellKnownEvent

/-- Why a name is not that of an event. -/
inductive EventError where
  | unknownWellKnown (name : String)
  | emptyName
  | reserved (name : String)
  deriving Repr, DecidableEq

/-- Text of an error. -/
def EventError.message : EventError → String
  | unknownWellKnown name => "invalid event: Unknown well known event: " ++ name
  | emptyName => "invalid event: event name is empty"
  | reserved name =>
    "invalid event: Attempted to log custom event matching built in or well known event: " ++ name

/-- An event that can be recorded. -/
structure Event where
  name : String
  kind : EventClass
  deriving Repr, DecidableEq

namespace Event

/-- Whether a name starts with a text. -/
def startsWith (name start : String) : Bool :=
  (Split.afterStart? start.toList name.toList).isSome

/-- An event of the library. -/
def builtIn (e : BuiltInEvent) : Event := ⟨e.name, .builtIn⟩

/-- A well-known event. -/
def wellKnown (name : String) : Except EventError Event :=
  if WellKnownEvent.all.contains name then .ok ⟨name, .wellKnown⟩
  else .error (.unknownWellKnown name)

/-- An event of the app's own. -/
def custom (name : String) : Except EventError Event :=
  if name = "" then .error .emptyName
  else if startsWith name BuiltInEvent.nameStart || startsWith name WellKnownEvent.nameStart then
    .error (.reserved name)
  else .ok ⟨name, .custom⟩

/-- An event that the app sends, well-known if its name is in that namespace. -/
def ofApp (name : String) : Except EventError Event :=
  if startsWith name WellKnownEvent.nameStart then wellKnown name else custom name

end Event

end Targeting
