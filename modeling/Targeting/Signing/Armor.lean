/-
# Armored keys

Keys as text between lines that say what they are. All lines of the body but the last have
exactly 64 characters. Text before the first such line is passed over; nothing may follow the
last one.
-/

import Targeting.Crypto.Base64
import Targeting.Text.Split

namespace Targeting.Armor

/-- What the first line starts with. -/
def beginning : List Char := "-----BEGIN ".toList

/-- What ends the first and the last line. -/
def dashes : List Char := "-----".toList

/-- What the last line starts with. -/
def ending : List Char := "-----END ".toList

/-- Drop a line end in front. -/
def dropLineEnd? : List Char → Option (List Char)
  | '\r' :: '\n' :: rest => some rest
  | '\n' :: rest => some rest
  | '\r' :: rest => some rest
  | _ => none

/-- Drop a line end at the end. -/
def dropLastLineEnd? (text : List Char) : Option (List Char) :=
  match text.reverse with
  | '\n' :: '\r' :: rest => some rest.reverse
  | '\n' :: rest => some rest.reverse
  | '\r' :: rest => some rest.reverse
  | _ => none

/-- Drop an ending. -/
def dropEnd? (ending text : List Char) : Option (List Char) :=
  (Split.afterStart? ending.reverse text.reverse).map List.reverse

/-- Drop the lines before the first one that begins an armor. -/
def dropPreamble : List Char → List Char
  | [] => []
  | c :: rest =>
    if beginning.isPrefixOf (c :: rest) then c :: rest
    else match rest.dropWhile fun c => c ≠ '\n' with
      | [] => []
      | _ :: _ => afterLine rest
where
  afterLine : List Char → List Char
    | [] => []
    | '\n' :: rest => if beginning.isPrefixOf rest then rest else afterLine rest
    | _ :: rest => afterLine rest

/-- The characters of a body in lines of 64. The fuel bounds the lines. -/
def joinLines : Nat → List Char → Option (List Char)
  | 0, _ => none
  | fuel + 1, text =>
    if text.length ≤ 64 then some text
    else do
      let rest ← dropLineEnd? (text.drop 64)
      let more ← joinLines fuel rest
      some (text.take 64 ++ more)

/-- The bytes in an armor with a label. -/
def decode? (label : String) (text : List Char) : Option (List UInt8) := do
  let rest ← Split.afterStart? (beginning ++ label.toList ++ dashes) (dropPreamble text)
  let rest ← dropLineEnd? rest
  let rest := (dropLastLineEnd? rest).getD rest
  let rest ← dropEnd? (ending ++ label.toList ++ dashes) rest
  let body ← dropLastLineEnd? rest
  let body ← joinLines (body.length + 1) body
  Base64.decode? body

end Targeting.Armor
