/-
# API keys

An API key says for which app it was issued. It is a text of parts with dashes between them: a
mark with a version number, properties in base64, and a signature of everything before it.
The bundle identifier of the app is the only property that has to be there; unknown ones are
kept, and they are signed too. The text of a key is exactly what was read.
-/

import Targeting.Number.Digits
import Targeting.Signing.Key
import Targeting.Text.NameSet

namespace Targeting

/-- An API key. -/
structure ApiKey where
  /-- Everything that is signed. -/
  signed : String
  signature : String
  version : Nat
  /-- Properties by name, sorted. -/
  properties : List (String × String)
  deriving Repr, DecidableEq

/-- What can be wrong with an API key. -/
inductive ApiKeyError where
  | invalid
  | otherBundle (keyBundle bundle : String)
  | key (error : KeyError)
  deriving Repr, DecidableEq

namespace ApiKey

/-- What keys start with. -/
def mark : String := "CM"

/-- The version of keys that are issued. -/
def currentVersion : Nat := 1

/-- Name of the property that holds the bundle identifier. -/
def bundleName : String := "b"

/-- A property from its base64 text: a name and a value, neither empty, with a colon between
them. -/
def readProperty? (text : List Char) : Option (String × String) := do
  let bytes ← Base64.decode? text
  let decoded ← String.fromUTF8? ⟨bytes.toArray⟩
  let (name, value) ← Split.once ':' decoded.toList
  if name = [] ∨ value = [] then none else some (String.ofList name, String.ofList value)

/-- Read a key. The signature is not checked. -/
def parse? (text : String) : Option ApiKey := do
  let chars := text.toList
  let rest ← Split.afterStart? mark.toList chars
  let (version, _) ← Split.once '-' rest
  let version ← Digits.unsigned? version
  let (signed, signature) ← Split.onceLast '-' chars
  let (_, properties) ← Split.once '-' signed
  let properties ← (Split.on '-' properties).mapM readProperty?
  let properties := NameMap.ofList properties
  if version < Nat.pow 2 32 ∧ (properties.lookup bundleName).isSome then
    some ⟨String.ofList signed, String.ofList signature, version, properties⟩
  else none

/-- The text of a key. -/
def render (key : ApiKey) : String := key.signed ++ "-" ++ key.signature

/-- Value of a property. -/
def property? (key : ApiKey) (name : String) : Option String := key.properties.lookup name

/-- Bundle identifier of the app that the key was issued for. -/
def bundle (key : ApiKey) : String := (key.property? bundleName).getD ""

/-- Whether a property can be written. -/
def isWritable (property : String × String) : Bool :=
  property.1 ≠ "" && property.2 ≠ "" && !property.1.toList.contains ':'

/-- Base64 text of a property. -/
def writeProperty (property : String × String) : List Char :=
  Base64.encode (property.1 ++ ":" ++ property.2).toUTF8.toList

/-- What is signed of a key with some properties. -/
def signedPart (properties : List (String × String)) : String :=
  String.ofList (mark.toList ++ Digits.ofNat currentVersion ++
    properties.flatMap fun property => '-' :: writeProperty property)

/-- Issue a key with some properties, sorted by name. -/
def issue (properties : List (String × String)) (signer : SigningKey) :
    Except ApiKeyError ApiKey :=
  if (nonEmptyValue (properties.lookup bundleName)) ∧ properties.all isWritable then
    let signed := signedPart properties
    match signer.sign signed.toUTF8.toList with
    | .ok signature => .ok ⟨signed, signature, currentVersion, properties⟩
    | .error error => .error (.key error)
  else .error .invalid
where
  nonEmptyValue : Option String → Bool
    | some value => value ≠ ""
    | none => false

/-- Issue a key for a bundle. -/
def issueFor (bundle : String) (signer : SigningKey) : Except ApiKeyError ApiKey :=
  issue [(bundleName, bundle)] signer

/-- Whether the signature of a key is that of a signer. -/
def verify (key : ApiKey) (signer : SigningKey) : Bool :=
  signer.verify key.signed.toUTF8.toList key.signature

/-- Check that a key was signed and that it was issued for a bundle. -/
def check (key : ApiKey) (bundle : String) (signer : SigningKey) : Except ApiKeyError Unit :=
  if !key.verify signer then .error .invalid
  else if key.bundle ≠ bundle then .error (.otherBundle key.bundle bundle)
  else .ok ()

end ApiKey

/-- Description of an error. -/
def ApiKeyError.message : ApiKeyError → String
  | invalid => "invalid API key. Please make sure you get your key from criticalmoments.io"
  | otherBundle keyBundle bundle =>
    "this API key isn't valid for this app. API key is for " ++ keyBundle ++
      ", but this app has bundle ID " ++ bundle
  | key error => error.message

end Targeting
