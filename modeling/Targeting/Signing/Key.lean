/-
# Signing keys

A key verifies signatures, and signs messages if its secret is known. Keys are written as
armored text or as base64 of their encoding; the encodings say which curve a key is for, and
only one is in use. Text around a key may be blank.
-/

import Targeting.Crypto.Ecdsa
import Targeting.Signing.Armor
import Targeting.Text.Blank

namespace Targeting

/-- A key. -/
structure SigningKey where
  point : Curve.Point
  secret : Option Nat
  deriving Repr, DecidableEq

/-- What can be wrong with a key. -/
inductive KeyError where
  | malformed
  | noSecret
  deriving Repr, DecidableEq

/-- Description of an error. -/
def KeyError.message : KeyError → String
  | malformed => "invalid signing key: the key cannot be read"
  | noSecret => "invalid signing key: can't sign a message without a private key"

namespace SigningKey

/-- Identifiers of the kind of key and of the curve, encoded. -/
def algorithm : List UInt8 :=
  Der.wrap Der.objectIdTag [0x2A, 0x86, 0x48, 0xCE, 0x3D, 0x02, 0x01] ++
    Der.wrap Der.objectIdTag [0x2A, 0x86, 0x48, 0xCE, 0x3D, 0x03, 0x01, 0x07]

/-- The public point of a secret. -/
def pointOf? (secret : Nat) : Option Curve.Point :=
  if Ecdsa.inRange secret then (Curve.times secret Curve.generator).toPoint? else none

/-- The key pair of a secret. -/
def ofSecret? (secret : Nat) : Option SigningKey :=
  (pointOf? secret).map fun point => ⟨point, some secret⟩

/-- Encoding of a public key. -/
def publicBytes (key : SigningKey) : List UInt8 :=
  Der.sequence [Der.wrap Der.sequenceTag algorithm, Der.bitString key.point.bytes]

/-- Encoding of a private key, together with its public point. -/
def privateBytes (secret : Nat) (point : Curve.Point) : List UInt8 :=
  let inner := Der.sequence [Der.integer 1,
    Der.wrap Der.octetStringTag (Octets.ofNat Curve.width secret),
    Der.wrap (Der.fieldTag 1 true) (Der.bitString point.bytes)]
  Der.sequence [Der.integer 0, Der.wrap Der.sequenceTag algorithm,
    Der.wrap Der.octetStringTag inner]

/-- The public key that bytes encode. -/
def ofPublicBytes? (bytes : List UInt8) : Option SigningKey := do
  let content ← Der.only? Der.sequenceTag bytes
  let (kind, rest) ← Der.unwrap? Der.sequenceTag content
  let bits ← Der.only? Der.bitStringTag rest
  let point ← Curve.ofBytes? (← Der.wholeBytes? bits)
  if kind = algorithm then some ⟨point, none⟩ else none

/-- Whether encoded bytes of a point are those of a given point, in full or shortened. -/
def isBytesOf (point : Curve.Point) (bytes : List UInt8) : Bool :=
  bytes = point.bytes ||
    bytes = (if point.y % 2 = 1 then 0x03 else 0x02) :: Octets.ofNat Curve.width point.x

/-- The key pair that the inner encoding of a private key stands for. A public point that is
given too has to be that of the secret. -/
def ofInnerBytes? (bytes : List UInt8) : Option SigningKey := do
  let content ← Der.only? Der.sequenceTag bytes
  let (version, rest) ← Der.integer? content
  let (secret, rest) ← Der.unwrap? Der.octetStringTag rest
  let (curve, rest) ← Der.field? 0 true rest
  let (given, rest) ← Der.field? 1 true rest
  if version ≠ 1 ∨ !rest.isEmpty ∨ secret.length < 24 ∨ Curve.width < secret.length then none
  else
    match curve with
    | some name => let _ ← Der.only? Der.objectIdTag name
    | none => pure ()
    let key ← ofSecret? (Octets.toNat secret)
    match given with
    | none => some key
    | some field =>
      let bits ← Der.only? Der.bitStringTag field
      let point ← Der.wholeBytes? bits
      if isBytesOf key.point point then some key else none

/-- The key pair that bytes encode. A first version has no public point beside the inner
encoding, a second one has to have it. -/
def ofPrivateBytes? (bytes : List UInt8) : Option SigningKey := do
  let content ← Der.only? Der.sequenceTag bytes
  let (version, rest) ← Der.integer? content
  let (kind, rest) ← Der.unwrap? Der.sequenceTag rest
  let (inner, rest) ← Der.unwrap? Der.octetStringTag rest
  let (_, rest) ← Der.field? 0 true rest
  let (given, rest) ← Der.field? 1 false rest
  let fits := (version = 0 ∧ given.isNone) ∨ (version = 1 ∧ given.isSome)
  if kind = algorithm ∧ rest.isEmpty ∧ fits then ofInnerBytes? inner else none

/-- Read the text of a key: armored, or base64 with blanks around it. -/
def readText {α : Type} (label : String) (read : List UInt8 → Option α) (text : String) :
    Except KeyError α :=
  let chars := Blank.trim text.toList
  let bytes :=
    if "-----BEGIN".toList.isPrefixOf chars then Armor.decode? label chars
    else Base64.decode? chars
  match bytes.bind read with
  | some key => .ok key
  | none => .error .malformed

/-- A key pair from the text of a private key. -/
def ofPrivateText (text : String) : Except KeyError SigningKey :=
  readText "PRIVATE KEY" ofPrivateBytes? text

/-- A key that only verifies, from the text of a public key. -/
def ofPublicText (text : String) : Except KeyError SigningKey :=
  readText "PUBLIC KEY" ofPublicBytes? text

/-- Whether the key can sign. -/
def canSign (key : SigningKey) : Bool := key.secret.isSome

/-- The key without its secret. -/
def publicOnly (key : SigningKey) : SigningKey := { key with secret := none }

/-- Base64 of bytes. -/
def textOf (bytes : List UInt8) : String := String.ofList (Base64.encode bytes)

/-- Text of the public key. -/
def publicText (key : SigningKey) : String := textOf key.publicBytes

/-- Text of the private key. -/
def privateText (key : SigningKey) : Except KeyError String :=
  match key.secret with
  | some secret => .ok (textOf (privateBytes secret key.point))
  | none => .error .noSecret

/-- The base64 text of the signature of a message. -/
def sign (key : SigningKey) (message : List UInt8) : Except KeyError String :=
  match key.secret with
  | none => .error .noSecret
  | some secret =>
    match Ecdsa.sign? secret message with
    | some signature => .ok (textOf signature.bytes)
    | none => .error .malformed

/-- Whether a text, blanks around it aside, is a signature of a message. -/
def verify (key : SigningKey) (message : List UInt8) (signature : String) : Bool :=
  match (Base64.decode? (Blank.trim signature.toList)).bind Ecdsa.Signature.ofBytes? with
  | some signature => Ecdsa.verify key.point message signature
  | none => false

end SigningKey

end Targeting
