/-
# Keyed hashing

A hash of a message under a secret key, from two rounds of SHA-256.
-/

import Targeting.Crypto.Sha256

namespace Targeting.Hmac

/-- Bytes of a block of the hash. -/
def blockSize : Nat := 64

/-- A key as one block: long keys are hashed, short ones filled with zeros. -/
def blockOf (key : List UInt8) : List UInt8 :=
  let short := if blockSize < key.length then Sha256.digest key else key
  short ++ List.replicate (blockSize - short.length) 0

/-- The hash of a message under a key. -/
def digest (key message : List UInt8) : List UInt8 :=
  let block := blockOf key
  let inner := Sha256.digest (block.map (· ^^^ 0x36) ++ message)
  Sha256.digest (block.map (· ^^^ 0x5c) ++ inner)

end Targeting.Hmac
