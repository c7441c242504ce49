/-
# Signatures

Signatures on the curve over hashes of messages. The secret number of a signature is derived
from the key and the hash, so a message has one signature per key.
-/

import Targeting.Crypto.Curve
import Targeting.Crypto.Der
import Targeting.Crypto.Hmac

namespace Targeting.Ecdsa

/-- The two numbers of a signature, between zero and the order of the group. -/
structure Signature where
  r : Nat
  s : Nat
  deriving Repr, DecidableEq

/-- Whether a number lies strictly between zero and the order. -/
def inRange (n : Nat) : Bool := 0 < n && n < Curve.order

/-- The number that stands for a message. -/
def messageNumber (message : List UInt8) : Nat := Octets.toNat (Sha256.digest message)

/-- State of the generator of secret numbers. -/
structure Drbg where
  key : List UInt8
  value : List UInt8

namespace Drbg

/-- Mix a seed into the state. -/
def update (g : Drbg) (mark : UInt8) (seed : List UInt8) : Drbg :=
  let key := Hmac.digest g.key (g.value ++ mark :: seed)
  ⟨key, Hmac.digest key g.value⟩

/-- The state for a seed. -/
def ofSeed (seed : List UInt8) : Drbg :=
  ((Drbg.mk (List.replicate 32 0) (List.replicate 32 1)).update 0 seed).update 1 seed

/-- The first number in range that the generator gives, within a number of attempts; a number
is out of range with a probability of less than two to the minus thirty-second. -/
def next? (g : Drbg) : (attempts : Nat) → Option Nat
  | 0 => none
  | attempts + 1 =>
    let value := Hmac.digest g.key g.value
    let n := Octets.toNat value
    if inRange n then some n else next? ((Drbg.mk g.key value).update 0 []) attempts

end Drbg

/-- The secret number for a key and the number of a message. -/
def nonce? (secret hash : Nat) : Option Nat :=
  let seed := Octets.ofNat Curve.width secret ++ Octets.ofNat Curve.width (hash % Curve.order)
  (Drbg.ofSeed seed).next? 64

/-- The first coordinate of a multiple of a point, modulo the order. -/
def coordinate? (p : Curve.Projective) : Option Nat :=
  p.toPoint?.map fun point => point.x % Curve.order

/-- Sign a message. -/
def sign? (secret : Nat) (message : List UInt8) : Option Signature := do
  let hash := messageNumber message
  let k ← nonce? secret hash
  let r ← coordinate? (Curve.times k Curve.generator)
  let s := Curve.inverse Curve.order k * (hash + r * secret) % Curve.order
  if r = 0 ∨ s = 0 then none else some ⟨r, s⟩

/-- Whether a signature is one of a message under a public point. -/
def verify (key : Curve.Point) (message : List UInt8) (signature : Signature) : Bool :=
  inRange signature.r && inRange signature.s &&
    (let hash := messageNumber message
     let w := Curve.inverse Curve.order signature.s
     let u := Curve.times (hash * w % Curve.order) Curve.generator
     let v := Curve.times (signature.r * w % Curve.order) key
     coordinate? (u.add v) = some signature.r)

/-- Encoding of a signature: a sequence of two integers. -/
def Signature.bytes (signature : Signature) : List UInt8 :=
  Der.sequence [Der.integer signature.r, Der.integer signature.s]

/-- The signature that bytes encode. -/
def Signature.ofBytes? (bytes : List UInt8) : Option Signature := do
  let content ← Der.only? Der.sequenceTag bytes
  let (r, rest) ← Der.integer? content
  let (s, rest) ← Der.integer? rest
  if rest.isEmpty && inRange r && inRange s then some ⟨r, s⟩ else none

end Targeting.Ecdsa
