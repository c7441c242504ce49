/-
# Quoted text

Two quoted forms of a text. The display form escapes what a reader could not see: control and
format characters, unassigned code points, blanks other than the space, and marks that would
attach to the character before them. The form used inside JSON escapes only what JSON requires.
-/

import Targeting.Number.Digits
import Targeting.Text.Category

namespace Targeting.Text

namespace Quoted

/-- Code points that extend the character before them although their category is not a mark. -/
def furtherExtenders : List (Nat × Nat) :=
  [(0x09BE, 0x09BE), (0x09D7, 0x09D7), (0x0B3E, 0x0B3E), (0x0B57, 0x0B57), (0x0BBE, 0x0BBE),
    (0x0BD7, 0x0BD7), (0x0CC2, 0x0CC2), (0x0CD5, 0x0CD6), (0x0D3E, 0x0D3E), (0x0D57, 0x0D57),
    (0x0DCF, 0x0DCF), (0x0DDF, 0x0DDF), (0x1B35, 0x1B35), (0x200C, 0x200C), (0x302E, 0x302F),
    (0xFF9E, 0xFF9F), (0x1133E, 0x1133E), (0x11357, 0x11357), (0x114B0, 0x114B0),
    (0x114BD, 0x114BD), (0x115AF, 0x115AF), (0x11930, 0x11930), (0x1D165, 0x1D165),
    (0x1D16E, 0x1D172), (0xE0020, 0xE007F)]

/-- Whether a character attaches to the one before it. -/
def isExtender (c : Char) : Bool :=
  Category.ofChar c = .mn || Category.ofChar c = .me ||
    furtherExtenders.any fun (low, high) => low ≤ c.toNat && c.toNat ≤ high

/-- Whether a character is written as itself. -/
def isVisible (c : Char) : Bool :=
  c = ' ' || match Category.ofChar c with
    | .cc | .cf | .cs | .co | .cn | .zl | .zp | .zs => false
    | _ => true

/-- Hexadecimal digits of a number, lowercase. -/
def hex (n : Nat) : List Char := Nat.toDigits 16 n

/-- Display form of one character. -/
def displayChar (c : Char) : List Char :=
  match c with
  | '\x00' => ['\\', '0']
  | '\t' => ['\\', 't']
  | '\r' => ['\\', 'r']
  | '\n' => ['\\', 'n']
  | '"' => ['\\', '"']
  | '\\' => ['\\', '\\']
  | c =>
    if isExtender c || !isVisible c then ['\\', 'u', '\x7b'] ++ hex c.toNat ++ ['\x7d'] else [c]

/-- Display form of a text, in double quotes. -/
def display (text : String) : String :=
  String.ofList ('"' :: text.toList.flatMap displayChar ++ ['"'])

/-- JSON form of one character: quotes, backslashes and control characters are escaped. -/
def jsonChar (c : Char) : List Char :=
  match c with
  | '"' => ['\\', '"']
  | '\\' => ['\\', '\\']
  | '\n' => ['\\', 'n']
  | '\r' => ['\\', 'r']
  | '\t' => ['\\', 't']
  | '\x08' => ['\\', 'b']
  | '\x0c' => ['\\', 'f']
  | c =>
    if c.toNat < 32 then
      let digits := hex c.toNat
      ['\\', 'u'] ++ List.replicate (4 - digits.length) '0' ++ digits
    else [c]

/-- JSON form of a text, in double quotes. -/
def json (text : String) : String :=
  String.ofList ('"' :: text.toList.flatMap jsonChar ++ ['"'])

end Quoted

end Targeting.Text
