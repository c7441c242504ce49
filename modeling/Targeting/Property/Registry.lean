/-
# The property registry

Properties are registered under names of the catalog or, by the app, under names of its own. A
registered property is a fixed value or says who is asked for the value whenever it is read.
The kind of a name never changes: the catalog decides it, or else the first registration. An
answer of another kind counts as no answer.

A version number that is registered as a fixed text also registers its components.
-/

import Targeting.History.Store
import Targeting.Json.Value
import Targeting.Property.Catalog
import Targeting.Version

namespace Targeting

open Calendar (Instant)

/-- A property that is derived from history. -/
inductive HistoryReading where
  | eventCount (event : String)
  | latestEvent (event : String)
  | latestValue (property : String)
  deriving Repr, DecidableEq

/-- The value of a reading. There is none without a history or before its start. -/
def HistoryReading.value? (history : Option Store) (reading : HistoryReading) :
    Option PropertyValue := do
  let store ← history
  match reading with
  | eventCount event =>
    let count ← (store.eventCount event).toOption
    some (.int (Int64.ofNat count))
  | latestEvent event =>
    let time ← (store.latestEvent event).toOption
    time.map .timestamp
  | latestValue property =>
    let value ← (store.latestValue property).toOption
    value

/-- Where the value of a registered property comes from. -/
inductive Provider where
  /-- A fixed value. -/
  | fixed (value : PropertyValue)
  /-- The app is asked. -/
  | app (kind : PropertyKind)
  /-- History is asked. -/
  | history (kind : PropertyKind) (reading : HistoryReading)
  /-- The start of the session. -/
  | sessionStart
  deriving Repr, DecidableEq

/-- Kind of the values of a provider. -/
def Provider.kind : Provider → PropertyKind
  | fixed value => value.kind
  | app kind => kind
  | history kind _ => kind
  | sessionStart => .timestamp

/-- How the world answers for the properties that are not fixed. -/
structure PropertyAnswers (σ : Type) where
  /-- The app's answer for a name. -/
  app : String → σ → Option PropertyValue × σ
  /-- The answer of history. -/
  history : HistoryReading → σ → Option PropertyValue × σ
  /-- The start of the session. -/
  sessionStart : σ → Instant × σ

/-- The answer for a provider, of whatever kind. -/
def PropertyAnswers.answer {σ : Type} (answers : PropertyAnswers σ) (name : String) (s : σ) :
    Provider → Option PropertyValue × σ
  | .fixed value => (some value, s)
  | .app _ => answers.app name s
  | .history _ reading => answers.history reading s
  | .sessionStart =>
    let (start, s) := answers.sessionStart s
    (some (.timestamp start), s)

/-- Why a property cannot be set. -/
inductive PropertyError where
  | emptyName
  | unknown (name : String)
  | wrongKind (name : String) (expected : PropertyKind)
  | malformedVersion (text : String)
  | malformedName (name : String)
  | unsupportedType (name : String)
  | malformedJson
  deriving Repr, DecidableEq

/-- Text of an error. -/
def PropertyError.message : PropertyError → String
  | emptyName => "invalid property: property name is empty"
  | unknown name => "invalid property: \"" ++ name ++
      "\" is not a known property. App specific properties must be set as custom properties"
  | wrongKind name expected =>
    "property \"" ++ name ++ "\" has the wrong type, expected " ++ expected.name
  | malformedVersion text =>
    "invalid property: Invalid version number format: \"" ++ text ++ "\""
  | malformedName name => "invalid property: \"" ++ name ++
      "\" is not a valid custom property name. Use letters, numbers and underscores"
  | unsupportedType name => "invalid property: unsupported type for key: " ++ name
  | malformedJson => "invalid property: invalid custom properties json: "

/-- Registered properties, sorted by name. -/
structure Registry where
  providers : List (String × Provider)
  deriving Repr, DecidableEq

namespace Registry

/-- No properties. -/
def empty : Registry := ⟨[]⟩

instance : Inhabited Registry := ⟨empty⟩

/-- The provider of a name. -/
def provider? (r : Registry) (name : String) : Option Provider := r.providers.lookup name

/-- Replace the provider of a name. -/
def put (r : Registry) (name : String) (p : Provider) : Registry :=
  ⟨NameMap.insert name p r.providers⟩

/-- Forget a name. -/
def drop (r : Registry) (name : String) : Registry :=
  ⟨r.providers.filter fun entry => entry.1 != name⟩

/-- The kind of a name: that of the catalog, or else that of the registered provider. -/
def kind? (r : Registry) (name : String) : Option PropertyKind :=
  match Catalog.kindOf? name with
  | some kind => some kind
  | none => (r.provider? name).map Provider.kind

/-! ### Registration -/

/-- Name of the property that holds the text of a version. -/
def versionTextName (name : String) : String := name ++ "_string"

/-- Name of a component of a version. -/
def componentName (name component : String) : String := name ++ "_" ++ component

/-- Register the text and the components of a version. The text is kept even if it is no
version. -/
def putVersion (r : Registry) (name text : String) : Except PropertyError Unit × Registry :=
  let r := r.put (versionTextName name) (.fixed (.text text))
  let r := Catalog.versionComponents.foldl (fun r part => r.drop (componentName name part)) r
  match Version.parse? text with
  | none => (.error (.malformedVersion text), r)
  | some version =>
    (.ok (), (Catalog.versionComponents.zip version.components).foldl
      (fun r (part, value) => r.put (componentName name part) (.fixed (.int value))) r)

/-- The text of a version number that is registered as a fixed value. -/
def versionText? (name : String) (p : Provider) : Option String :=
  match p, Catalog.schemaFor? name with
  | .fixed (.text text), some schema => if schema.isVersion then some text else none
  | _, _ => none

/-- Why a provider is refused for a name. -/
def refusal? (r : Registry) (name : String) (p : Provider) : Option PropertyError :=
  if name = "" then some .emptyName
  else if (Catalog.kindOf? name).isNone && !Catalog.isCustom name then some (.unknown name)
  else
    match r.kind? name with
    | some expected => if p.kind = expected then none else some (.wrongKind name expected)
    | none => none

/-- Register a provider. -/
def register (r : Registry) (name : String) (p : Provider) :
    Except PropertyError Unit × Registry :=
  match r.refusal? name p with
  | some error => (.error error, r)
  | none =>
    match versionText? name p with
    | some text => (r.put name p).putVersion name text
    | none => (.ok (), r.put name p)

/-- Whether the app may give a name to a property. -/
def isPlainName (name : String) : Bool :=
  name != "" && name.toList.all fun c => c.isAlphanum || c == '_'

/-- The name under which a property of the app is registered. Well-known names are kept. -/
def appName (name : String) : String :=
  match Catalog.schemaFor? name with
  | some schema =>
    if schema.requirement = .wellKnown then name else Catalog.customStart ++ name
  | none => Catalog.customStart ++ name

/-- Set a property of the app. Answers the name under which conditions read it. -/
def setCustom (r : Registry) (name : String) (value : PropertyValue) :
    Except PropertyError String × Registry :=
  if isPlainName name then
    let (result, r) := r.register (appName name) (.fixed value)
    (result.map fun _ => appName name, r)
  else (.error (.malformedName name), r)

/-- The property value of a JSON value; only truth values, texts and numbers have one. -/
def valueOf? : Json → Option PropertyValue
  | .bool b => some (.bool b)
  | .text s => some (.text s)
  | .number n =>
    match n.int? with
    | some i => some (.int i)
    | none => some (.float n.toFloat)
  | _ => none

/-- Set a property of the app from a member of an object. -/
def setMember (r : Registry) (name : String) (json : Json) :
    Except PropertyError String × Registry :=
  match valueOf? json with
  | some value => r.setCustom name value
  | none => (.error (.unsupportedType name), r)

/-- What became of several members: the names of those that were accepted, and the first
failure. -/
structure MemberOutcome where
  accepted : List String
  failure : Option PropertyError
  deriving Repr, DecidableEq

/-- Set properties from members in order, passing over those that fail. -/
def setMembers (r : Registry) : List (String × Json) → MemberOutcome × Registry
  | [] => (⟨[], none⟩, r)
  | (name, json) :: rest =>
    let (first, r) := r.setMember name json
    let (others, r) := r.setMembers rest
    match first with
    | .ok full => (⟨full :: others.accepted, others.failure⟩, r)
    | .error error => (⟨others.accepted, some error⟩, r)

/-- Set properties of the app from a JSON object. All valid members are set even if some fail;
then the first failure is the result. -/
def setCustomJson (r : Registry) (bytes : List UInt8) :
    Except PropertyError (List String) × Registry :=
  match Json.parse? bytes with
  | some (.object members) =>
    let (outcome, r) := r.setMembers members
    match outcome.failure with
    | some error => (.error error, r)
    | none => (.ok outcome.accepted, r)
  | _ => (.error .malformedJson, r)

/-! ### Questions -/

/-- The present value of a property. There is none if the name is not registered, if the world
has no answer, or if the answer is of another kind than the provider. -/
def value {σ : Type} (r : Registry) (answers : PropertyAnswers σ) (name : String) (s : σ) :
    Option PropertyValue × σ :=
  match r.provider? name with
  | none => (none, s)
  | some p =>
    let (found, s) := answers.answer name s p
    (found.filter fun v => v.kind = p.kind, s)

/-- How readings of a name are recorded. -/
def sampling (name : String) : Sampling :=
  match Catalog.schemaFor? name with
  | some schema => schema.sampling
  | none => if Catalog.isCustom name then .onCustomSet else .never

/-- What is wrong with one property of the catalog. -/
def problem? (r : Registry) (name : String) (schema : PropertySchema) : Option String :=
  match r.provider? name with
  | none =>
    if schema.requirement = .required then some ("Missing required property: " ++ name) else none
  | some p =>
    if p.kind = schema.kind then none
    else some ("Property \"" ++ name ++ "\" of wrong kind. Expected " ++ schema.kind.name)

/-- What is wrong with the registered properties, in the order of the catalog. -/
def problems (r : Registry) : List String :=
  Catalog.all.filterMap fun (name, schema) => r.problem? name schema

/-- Values of names that have one, read in order. -/
def valuesOf {σ : Type} (r : Registry) (answers : PropertyAnswers σ) :
    List String → σ → List (String × PropertyValue) × σ
  | [], s => ([], s)
  | name :: rest, s =>
    let (first, s) := r.value answers name s
    let (others, s) := r.valuesOf answers rest s
    match first with
    | some v => ((name, v) :: others, s)
    | none => (others, s)

/-- The values to record when the app starts, sorted by name. -/
def startSamples {σ : Type} (r : Registry) (answers : PropertyAnswers σ) (s : σ) :
    List (String × PropertyValue) × σ :=
  let names := (r.providers.map Prod.fst).filter fun name => sampling name = .appStart
  r.valuesOf answers names s

end Registry

end Targeting
