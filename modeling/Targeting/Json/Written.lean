/-
# JSON texts

A JSON text as it is written: members of objects in order and with repetitions, and parts that
are well formed but have no value. These are texts that are no Unicode, because bytes are
wrong or half of an escaped pair is missing, and numbers beyond the range; they only matter
when somebody asks for their value. How deeply values may be nested is also a limit on values,
not on texts.
-/

import Targeting.Json.Value

namespace Targeting

/-- A JSON text that has been read. -/
inductive Json.Written where
  | null
  | bool (b : Bool)
  | number (n : Option Json.Number)
  | text (s : Option String)
  | array (items : List Json.Written)
  | object (members : List (Option String × Json.Written))
  deriving Repr, Inhabited

namespace Json.Written

namespace Reader

/-- A byte of a text, or an escaped code unit. -/
inductive Unit where
  | byte (b : UInt8)
  | code (n : Nat)
  deriving Repr, DecidableEq

/-- UTF-8 bytes of a code point. -/
def utf8 (n : Nat) : List UInt8 :=
  (String.singleton (Char.ofNat n)).toUTF8.toList

/-- The bytes of the units, pairs of escaped code units joined. A half without its other half
has no bytes. -/
def joined : List Unit → Option (List UInt8)
  | [] => some []
  | .byte b :: rest => (joined rest).map fun bytes => b :: bytes
  | .code high :: rest =>
    if 0xD800 ≤ high ∧ high < 0xDC00 then
      match rest with
      | .code low :: rest =>
        if 0xDC00 ≤ low ∧ low < 0xE000 then
          (joined rest).map fun bytes =>
            utf8 (0x10000 + (high - 0xD800) * 0x400 + (low - 0xDC00)) ++ bytes
        else none
      | _ => none
    else if 0xDC00 ≤ high ∧ high < 0xE000 then none
    else (joined rest).map fun bytes => utf8 high ++ bytes

/-- The text of some units, if it is Unicode. -/
def textOf (units : List Unit) : Option String :=
  (joined units).bind fun bytes => String.fromUTF8? ⟨bytes.toArray⟩

/-- Value of a hexadecimal digit. -/
def hexValue? (b : UInt8) : Option Nat :=
  let n := b.toNat
  if 48 ≤ n ∧ n ≤ 57 then some (n - 48)
  else if 97 ≤ n ∧ n ≤ 102 then some (n - 87)
  else if 65 ≤ n ∧ n ≤ 70 then some (n - 55)
  else none

/-- The byte that a letter after a backslash stands for. -/
def escaped? (b : UInt8) : Option UInt8 :=
  match Char.ofNat b.toNat with
  | '"' => some 34
  | '\\' => some 92
  | '/' => some 47
  | 'b' => some 8
  | 'f' => some 12
  | 'n' => some 10
  | 'r' => some 13
  | 't' => some 9
  | _ => none

/-- The units of a text up to its closing quote, and what follows it. -/
def units : List UInt8 → Option (List Unit × List UInt8)
  | [] => none
  | 34 :: rest => some ([], rest)
  | 92 :: 117 :: a :: b :: c :: d :: rest => do
    let a ← hexValue? a
    let b ← hexValue? b
    let c ← hexValue? c
    let d ← hexValue? d
    let (more, rest) ← units rest
    some (.code (4096 * a + 256 * b + 16 * c + d) :: more, rest)
  | 92 :: letter :: rest => do
    let b ← escaped? letter
    let (more, rest) ← units rest
    some (.byte b :: more, rest)
  | b :: rest =>
    if b < 32 ∨ b = 92 then none
    else do
      let (more, rest) ← units rest
      some (.byte b :: more, rest)

/-- Whether a byte is a decimal digit. -/
def isDigit (b : UInt8) : Bool := 48 ≤ b && b ≤ 57

/-- The digits at the front, as characters. -/
def digits (bytes : List UInt8) : List Char × List UInt8 :=
  ((bytes.takeWhile isDigit).map fun b => Char.ofNat b.toNat, bytes.dropWhile isDigit)

/-- The digits at the front, of which there has to be one. -/
def someDigits (bytes : List UInt8) : Option (List Char × List UInt8) :=
  match digits bytes with
  | ([], _) => none
  | found => some found

/-- A number at the front. Zero is only followed by a point or an exponent. -/
def number (bytes : List UInt8) : Option (Option Number × List UInt8) := do
  let (isNegative, bytes) := match bytes with
    | 45 :: rest => (true, rest)
    | bytes => (false, bytes)
  let (integer, bytes) ← someDigits bytes
  if integer.length > 1 ∧ integer.head? = some '0' then none
  else
    let (fraction, bytes) ← match bytes with
      | 46 :: rest => (someDigits rest).map fun (found, rest) => (some found, rest)
      | bytes => some (none, bytes)
    let (exponent, bytes) ← match bytes with
      | 101 :: rest | 69 :: rest =>
        let (down, rest) := match rest with
          | 43 :: rest => (false, rest)
          | 45 :: rest => (true, rest)
          | rest => (false, rest)
        (someDigits rest).map fun (found, rest) => (Number.Exponent.power down found, rest)
      | bytes => some (.absent, bytes)
    some (Number.ofParts? isNegative integer fraction exponent, bytes)

/-- Drop the blanks in front: spaces, tabs and line ends. -/
def skipBlanks (bytes : List UInt8) : List UInt8 :=
  bytes.dropWhile fun b => b = 32 || b = 10 || b = 9 || b = 13

/-- Drop a fixed word. -/
def afterWord (word : String) (bytes : List UInt8) : Option (List UInt8) :=
  let expected := word.toUTF8.toList
  if expected.isPrefixOf bytes then some (bytes.drop expected.length) else none

mutual

/-- A value at the front, blanks before it allowed. The fuel bounds the bytes. -/
def value : Nat → List UInt8 → Option (Written × List UInt8)
  | 0, _ => none
  | fuel + 1, bytes =>
    match skipBlanks bytes with
    | [] => none
    | 110 :: rest => (afterWord "ull" rest).map fun rest => (.null, rest)
    | 116 :: rest => (afterWord "rue" rest).map fun rest => (.bool true, rest)
    | 102 :: rest => (afterWord "alse" rest).map fun rest => (.bool false, rest)
    | 34 :: rest => (units rest).map fun (found, rest) => (.text (textOf found), rest)
    | 91 :: rest =>
      match skipBlanks rest with
      | 93 :: rest => some (.array [], rest)
      | rest => do
        let (first, rest) ← value fuel rest
        let (others, rest) ← items fuel rest
        some (.array (first :: others), rest)
    | 123 :: rest =>
      match skipBlanks rest with
      | 125 :: rest => some (.object [], rest)
      | rest => do
        let (first, rest) ← member fuel rest
        let (others, rest) ← members fuel rest
        some (.object (first :: others), rest)
    | bytes => (number bytes).map fun (n, rest) => (.number n, rest)

/-- Further items of an array, each after a comma, and the closing bracket. -/
def items : Nat → List UInt8 → Option (List Written × List UInt8)
  | 0, _ => none
  | fuel + 1, bytes =>
    match skipBlanks bytes with
    | 93 :: rest => some ([], rest)
    | 44 :: rest => do
      let (first, rest) ← value fuel rest
      let (others, rest) ← items fuel rest
      some (first :: others, rest)
    | _ => none

/-- A member of an object: a name in quotes, a colon and a value. -/
def member : Nat → List UInt8 → Option ((Option String × Written) × List UInt8)
  | 0, _ => none
  | fuel + 1, bytes =>
    match skipBlanks bytes with
    | 34 :: rest => do
      let (name, rest) ← units rest
      match skipBlanks rest with
      | 58 :: rest => do
        let (found, rest) ← value fuel rest
        some ((textOf name, found), rest)
      | _ => none
    | _ => none

/-- Further members of an object, each after a comma, and the closing brace. -/
def members : Nat → List UInt8 → Option (List (Option String × Written) × List UInt8)
  | 0, _ => none
  | fuel + 1, bytes =>
    match skipBlanks bytes with
    | 125 :: rest => some ([], rest)
    | 44 :: rest => do
      let (first, rest) ← member fuel rest
      let (others, rest) ← members fuel rest
      some (first :: others, rest)
    | _ => none

end

end Reader

/-- Read a JSON text, blanks around it allowed. -/
def parse? (bytes : List UInt8) : Option Written := do
  let (found, rest) ← Reader.value (2 * bytes.length + 2) bytes
  if (Reader.skipBlanks rest).isEmpty then some found else none

mutual

/-- The value of a text whose arrays and objects are nested at most to a depth. Of members with
the same name the last one counts. -/
def value? : Nat → Written → Option Json
  | _, null => some .null
  | _, bool b => some (.bool b)
  | _, number n => n.map .number
  | _, text s => s.map .text
  | 0, array _ => none
  | depth + 1, array items => (values? depth items).map .array
  | 0, object _ => none
  | depth + 1, object members =>
    (memberValues? depth members).map fun found => .object (NameMap.ofList found)

/-- The values of items. -/
def values? : Nat → List Written → Option (List Json)
  | _, [] => some []
  | depth, first :: rest => do
    let value ← value? depth first
    let values ← values? depth rest
    some (value :: values)

/-- The names and values of members. -/
def memberValues? : Nat → List (Option String × Written) → Option (List (String × Json))
  | _, [] => some []
  | depth, (name, first) :: rest => do
    let name ← name
    let value ← value? depth first
    let values ← memberValues? depth rest
    some ((name, value) :: values)

end

mutual

/-- A text that has a given value. -/
def ofValue : Json → Written
  | .null => null
  | .bool b => bool b
  | .number n => number (some n)
  | .text s => text (some s)
  | .array items => array (ofValues items)
  | .object members => object (ofMembers members)

/-- Texts of values. -/
def ofValues : List Json → List Written
  | [] => []
  | first :: rest => ofValue first :: ofValues rest

/-- Texts of members. -/
def ofMembers : List (String × Json) → List (Option String × Written)
  | [] => []
  | (name, first) :: rest => (some name, ofValue first) :: ofMembers rest

end

end Json.Written

/-- How deeply a value that is read may be nested. -/
def Json.maxDepth : Nat := 127

/-- The value of a JSON text. -/
def Json.parse? (bytes : List UInt8) : Option Json :=
  (Json.Written.parse? bytes).bind (Json.Written.value? Json.maxDepth)

end Targeting
