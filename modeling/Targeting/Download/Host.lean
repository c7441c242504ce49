/-
# Host names

Which texts can stand for a host in a URL. A host is a name, a number of four parts, or an
address in brackets. The hosts of the known schemes are decoded from percent signs before they
are judged, and a name that ends in a number has to be a number of four parts.
-/

import Targeting.Number.Digits
import Targeting.Text.Split

namespace Targeting.Download.Host

/-- Value of a hexadecimal digit. -/
def hexValue? (c : Char) : Option Nat :=
  if c.isDigit then some (c.toNat - '0'.toNat)
  else if 'a' ≤ c ∧ c ≤ 'f' then some (c.toNat - 'a'.toNat + 10)
  else if 'A' ≤ c ∧ c ≤ 'F' then some (c.toNat - 'A'.toNat + 10)
  else none

/-- Whether a character is a hexadecimal digit. -/
def isHex (c : Char) : Bool := (hexValue? c).isSome

/-- The byte of the two hexadecimal digits in front. -/
def byteInFront? : List Char → Option UInt8
  | a :: b :: _ => do
    let high ← hexValue? a
    let low ← hexValue? b
    some (UInt8.ofNat (16 * high + low))
  | _ => none

/-- The bytes of a text after a number of characters, with percent signs and two hexadecimal
digits decoded. -/
def decodedAfter : Nat → List Char → List UInt8
  | _, [] => []
  | skip + 1, _ :: rest => decodedAfter skip rest
  | 0, c :: rest =>
    match if c = '%' then byteInFront? rest else none with
    | some byte => byte :: decodedAfter 2 rest
    | none => (String.singleton c).toUTF8.toList ++ decodedAfter 0 rest

/-- The bytes of a text, with percent signs and two hexadecimal digits decoded. -/
def percentDecoded (text : List Char) : List UInt8 := decodedAfter 0 text

/-- Characters that no host contains. -/
def isForbidden (c : Char) : Bool :=
  ['\x00', '\t', '\n', '\r', ' ', '#', '/', ':', '<', '>', '?', '@', '[', '\\', ']', '^',
    '|'].contains c

/-- Characters that no name of a known scheme's host contains: moreover control characters and
percent signs. -/
def isForbiddenInName (c : Char) : Bool :=
  isForbidden c || c.toNat < 32 || c = '%' || c.toNat = 127

/-- A part of a number of four parts: decimal, octal after a zero, hexadecimal after `0x`. -/
def partOf? : List Char → Option Nat
  | [] => none
  | ['0'] => some 0
  | '0' :: c :: digits =>
    if c = 'x' ∨ c = 'X' then
      if digits.all isHex then
        some (digits.foldl (fun n d => 16 * n + (hexValue? d).getD 0) 0)
      else none
    else if (c :: digits).all fun d => '0' ≤ d && d ≤ '7' then
      some ((c :: digits).foldl (fun n d => 8 * n + (d.toNat - '0'.toNat)) 0)
    else none
  | digits => Digits.natural? digits

/-- The parts of a name between dots; a dot at the end does not count. -/
def partsOf (name : List Char) : List (List Char) :=
  let parts := Split.on '.' name
  if parts.getLast? = some [] then parts.dropLast else parts

/-- Whether the last part of a name is written as a number. -/
def endsInNumber (name : List Char) : Bool :=
  match (partsOf name).getLast? with
  | none => false
  | some last => (!last.isEmpty && last.all Char.isDigit) || (partOf? last).isSome

/-- Whether a name is a number of up to four parts. The last part fills the places of the missing
ones. -/
def isNumber (name : List Char) : Bool :=
  let parts := partsOf name
  match (parts.mapM partOf?).map List.reverse with
  | some (last :: others) =>
    parts.length ≤ 4 && others.all (fun n => n ≤ 255) && last < Nat.pow 256 (5 - parts.length)
  | _ => false

/-- How many groups of sixteen bits a piece of an address stands for: a group of hexadecimal
digits for one, four decimal numbers for two. -/
def groupsOf? (mayBeNumber : Bool) (piece : List Char) : Option Nat :=
  if !piece.isEmpty && piece.length ≤ 4 && piece.all isHex then some 1
  else
    let parts := Split.on '.' piece
    let isPart := fun (part : List Char) =>
      !part.isEmpty && part.length ≤ 3 && part.all Char.isDigit &&
        (part.length = 1 || part.head? ≠ some '0') && Digits.accumulate 0 part ≤ 255
    if mayBeNumber && parts.length = 4 && parts.all isPart then some 2 else none

/-- The groups of pieces; only the last piece may be a number. -/
def groups? (mayBeNumber : Bool) : List (List Char) → Option Nat
  | [] => some 0
  | [only] => groupsOf? mayBeNumber only
  | first :: rest => do
    let one ← groupsOf? false first
    let others ← groups? mayBeNumber rest
    some (one + others)

/-- The text before and after the first two colons in a row. -/
def atGap? : List Char → Option (List Char × List Char)
  | ':' :: ':' :: rest => some ([], rest)
  | c :: rest => (atGap? rest).map fun (before, after) => (c :: before, after)
  | [] => none

/-- The pieces between colons; no text has no pieces. -/
def piecesOf (text : List Char) : List (List Char) :=
  if text.isEmpty then [] else Split.on ':' text

/-- Whether a text is an address of eight groups. Two colons in a row stand for missing groups, at
least for one. -/
def isAddress (text : List Char) : Bool :=
  match atGap? text with
  | none => groups? true (piecesOf text) == some 8
  | some (before, after) =>
    match groups? false (piecesOf before), groups? true (piecesOf after) with
    | some a, some b => a + b ≤ 7
    | _, _ => false

/-- Whether a text is an address in brackets. -/
def isBracketed (text : List Char) : Bool :=
  match Split.afterStart? ['['] text with
  | none => false
  | some rest => rest.getLast? = some ']' && isAddress rest.dropLast

/-- Whether a text is a host of a known scheme. -/
def isKnownSchemeHost (text : List Char) : Bool :=
  if text.head? = some '[' then isBracketed text
  else
    match String.fromUTF8? ⟨(percentDecoded text).toArray⟩ with
    | none => true
    | some decoded =>
      let name := decoded.toList
      !name.isEmpty && !name.any isForbiddenInName && (!endsInNumber name || isNumber name)

/-- Whether a text is a host of any other scheme; it may be empty. -/
def isOtherHost (text : List Char) : Bool :=
  if text.head? = some '[' then isBracketed text else !text.any isForbidden

end Targeting.Download.Host
