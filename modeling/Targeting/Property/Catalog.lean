/-
# The property catalog

Properties known to the library: their kinds, whether they must be registered before the
start, and how they are recorded. A property that holds a version number also declares
derived names: the text itself and its first seven components. Names starting with `custom_`
belong to the app.
-/

import Targeting.Property.Value
import Targeting.Text.Split

namespace Targeting

/-- Who provides a property. -/
inductive PropertySource where
  | library | client
  deriving Repr, DecidableEq

/-- How a property may be registered: it must be, it may be, or the app provides it when it
knows it. -/
inductive Requirement where
  | required | optional | wellKnown
  deriving Repr, DecidableEq

/-- Declaration of a catalog property. -/
structure PropertySchema where
  kind : PropertyKind
  requirement : Requirement
  sampling : Sampling
  /-- A version number, for which derived properties exist. -/
  isVersion : Bool
  deriving Repr, DecidableEq

/-- Well-known properties come from the app, all others from the library. -/
def PropertySchema.source (s : PropertySchema) : PropertySource :=
  match s.requirement with
  | .wellKnown => .client
  | _ => .library

namespace Catalog

/-- A property that must be registered and is recorded at every start. -/
def required (kind : PropertyKind) : PropertySchema := ⟨kind, .required, .appStart, false⟩

/-- A property that may be registered and is recorded at every start. -/
def optional (kind : PropertyKind) : PropertySchema := ⟨kind, .optional, .appStart, false⟩

/-- A version number. -/
def version (requirement : Requirement) : PropertySchema := ⟨.text, requirement, .appStart, true⟩

/-- All properties of the library, in order. -/
def all : List (String × PropertySchema) :=
  [("platform", required .text),
    ("os_version", version .required),
    ("device_manufacturer", required .text),
    ("device_model", required .text),
    ("device_model_class", required .text),
    ("locale_language_code", required .text),
    ("locale_country_code", required .text),
    ("locale_currency_code", required .text),
    ("app_version", version .required),
    ("user_interface_idiom", required .text),
    ("app_id", required .text),
    ("screen_width_pixels", required .int),
    ("screen_height_pixels", required .int),
    ("screen_width_points", required .int),
    ("screen_height_points", required .int),
    ("screen_scale", required .float),
    ("device_battery_state", required .text),
    ("device_battery_level", required .float),
    ("device_low_power_mode", required .bool),
    ("device_orientation", required .text),
    ("interface_orientation", required .text),
    ("dark_mode", required .bool),
    ("network_connection_type", required .text),
    ("has_wifi_connection", required .bool),
    ("has_cell_connection", required .bool),
    ("has_active_network", required .bool),
    ("expensive_network", required .bool),
    ("cm_version", required .text),
    ("foreground", required .bool),
    ("app_install_date", required .timestamp),
    ("timezone_gmt_offset", required .int),
    ("app_state", required .text),
    ("has_watch", required .bool),
    ("screen_brightness", required .float),
    ("screen_captured", required .bool),
    ("other_audio_playing", required .bool),
    ("has_headphones", required .bool),
    ("has_bt_headphones", required .bool),
    ("has_bt_headset", required .bool),
    ("has_wired_headset", required .bool),
    ("has_car_audio", required .bool),
    ("on_call", required .bool),
    ("location_permission", required .bool),
    ("location_permission_detailed", required .text),
    ("location_latitude", required .float),
    ("location_longitude", required .float),
    ("location_city", required .text),
    ("location_region", required .text),
    ("location_country", required .text),
    ("location_approx_city", required .text),
    ("location_approx_region", required .text),
    ("location_approx_country", required .text),
    ("location_approx_latitude", required .float),
    ("location_approx_longitude", required .float),
    ("notifications_permission", required .text),
    ("microphone_permission", required .text),
    ("camera_permission", required .text),
    ("contacts_permission", required .text),
    ("photo_library_permission", required .text),
    ("add_photo_permission", required .text),
    ("calendar_permission", required .text),
    ("reminders_permission", required .text),
    ("bluetooth_permission", required .text),
    ("device_model_version", version .optional),
    ("low_data_mode", optional .bool),
    ("app_start_time", ⟨.timestamp, .optional, .never, false⟩),
    ("session_start_time", ⟨.timestamp, .optional, .never, false⟩),
    ("user_signup_date", ⟨.timestamp, .wellKnown, .onCustomSet, false⟩),
    ("user_signed_in", ⟨.bool, .wellKnown, .onCustomSet, false⟩)]

/-- Declaration of a property by name. -/
def schemaFor? (name : String) : Option PropertySchema :=
  all.lookup name

/-- Names of the components of a version, most significant first. -/
def versionComponents : List String :=
  ["major", "minor", "patch", "mini", "micro", "nano", "smol"]

/-- Kind of a property derived from a version property: the text after the last underscore
says which. -/
def derivedKind? (name : String) : Option PropertyKind := do
  let (base, part) ← Split.onceLast '_' name.toList
  let schema ← schemaFor? (String.ofList base)
  if schema.isVersion then
    if String.ofList part = "string" then some .text
    else if String.ofList part ∈ versionComponents then some .int
    else none
  else none

/-- Declared kind of a property, derived ones included. -/
def kindOf? (name : String) : Option PropertyKind :=
  match schemaFor? name with
  | some schema => some schema.kind
  | none => derivedKind? name

/-- What names of app properties start with. -/
def customStart : String := "custom_"

/-- Whether a name is that of an app property. -/
def isCustom (name : String) : Bool :=
  match Split.afterStart? customStart.toList name.toList with
  | some (_ :: _) => true
  | _ => false

/-- Whether a condition may read a name under strict validation. -/
def isDeclared (name : String) : Bool :=
  (kindOf? name).isSome || isCustom name

end Catalog

end Targeting
