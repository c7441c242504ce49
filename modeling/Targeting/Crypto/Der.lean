/-
# Distinguished encoding

Structured data as bytes: a tag, the length of the content in as few bytes as possible, and the
content. Each datum has exactly one encoding, and reading accepts nothing else.
-/

import Targeting.Crypto.Octets

namespace Targeting.Der

/-- Tags in use. -/
def integerTag : UInt8 := 0x02
def bitStringTag : UInt8 := 0x03
def octetStringTag : UInt8 := 0x04
def objectIdTag : UInt8 := 0x06
def sequenceTag : UInt8 := 0x30

/-- Tag of a field with a number of its own; `constructed` if its content is encoded data. -/
def fieldTag (number : Nat) (constructed : Bool) : UInt8 :=
  UInt8.ofNat ((if constructed then 0xA0 else 0x80) + number)

/-- Encoding of a length. -/
def length (n : Nat) : List UInt8 :=
  if n < 128 then [UInt8.ofNat n]
  else
    let bytes := Octets.shortest n
    UInt8.ofNat (128 + bytes.length) :: bytes

/-- Encoding of a content under a tag. -/
def wrap (tag : UInt8) (content : List UInt8) : List UInt8 :=
  tag :: length content.length ++ content

/-- Encoding of a natural number. A leading zero byte keeps the sign bit clear. -/
def integer (n : Nat) : List UInt8 :=
  let bytes := Octets.shortest n
  wrap integerTag (if (bytes.headD 0).toNat < 128 then bytes else 0 :: bytes)

/-- Encoding of a sequence of encoded parts. -/
def sequence (parts : List (List UInt8)) : List UInt8 := wrap sequenceTag parts.flatten

/-- Encoding of a bit string of whole bytes. -/
def bitString (bytes : List UInt8) : List UInt8 := wrap bitStringTag (0 :: bytes)

/-- A length at the front. -/
def length? : List UInt8 → Option (Nat × List UInt8)
  | [] => none
  | first :: rest =>
    let n := first.toNat
    if n < 128 then some (n, rest)
    else
      let width := n - 128
      let bytes := rest.take width
      let size := Octets.toNat bytes
      if width = 0 ∨ 4 < width ∨ bytes.length < width then none
      else if bytes.head? = some 0 ∨ size < 128 then none
      else some (size, rest.drop width)

/-- The content under a tag at the front, and what follows it. -/
def unwrap? (tag : UInt8) : List UInt8 → Option (List UInt8 × List UInt8)
  | [] => none
  | first :: rest =>
    if first = tag then do
      let (size, rest) ← length? rest
      if size ≤ rest.length then some (rest.take size, rest.drop size) else none
    else none

/-- The content under a tag, with nothing after it. -/
def only? (tag : UInt8) (bytes : List UInt8) : Option (List UInt8) := do
  let (content, rest) ← unwrap? tag bytes
  if rest.isEmpty then some content else none

/-- The natural number that the content of an integer writes in the fewest bytes. -/
def natural? : List UInt8 → Option Nat
  | [] => none
  | [b] => if b.toNat < 128 then some b.toNat else none
  | a :: b :: rest =>
    if 128 ≤ a.toNat ∨ (a = 0 ∧ b.toNat < 128) then none else some (Octets.toNat (a :: b :: rest))

/-- A natural number at the front. -/
def integer? (bytes : List UInt8) : Option (Nat × List UInt8) := do
  let (content, rest) ← unwrap? integerTag bytes
  let n ← natural? content
  some (n, rest)

/-- A field with a number of its own at the front, if it is there. -/
def field? (number : Nat) (constructed : Bool) (bytes : List UInt8) :
    Option (Option (List UInt8) × List UInt8) :=
  if bytes.head? = some (fieldTag number constructed) then
    (unwrap? (fieldTag number constructed) bytes).map fun (content, rest) => (some content, rest)
  else some (none, bytes)

/-- The bytes of a bit string of whole bytes. -/
def wholeBytes? : List UInt8 → Option (List UInt8)
  | 0 :: bytes => some bytes
  | _ => none

end Targeting.Der
