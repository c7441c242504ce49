/-
# Blank characters

Two sets of blanks are in use. Source texts of conditions and signed messages are separated
by the five ASCII blanks; texts meant for people are trimmed of every character with the
Unicode property White_Space.
-/

namespace Targeting.Blank

/-- Space, tab, line feed, form feed and carriage return. -/
def isAscii (c : Char) : Bool :=
  c = ' ' || c = '\t' || c = '\n' || c = '\x0c' || c = '\r'

/-- The Unicode property White_Space. -/
def isUnicode (c : Char) : Bool :=
  let n := c.toNat
  (9 ≤ n && n ≤ 13) || n = 0x20 || n = 0x85 || n = 0xA0 || n = 0x1680 ||
    (0x2000 ≤ n && n ≤ 0x200A) || n = 0x2028 || n = 0x2029 || n = 0x202F || n = 0x205F ||
    n = 0x3000

/-- Drop the Unicode blanks in front. -/
def trimStart (text : List Char) : List Char :=
  text.dropWhile isUnicode

/-- Drop the Unicode blanks at the end. -/
def trimEnd (text : List Char) : List Char :=
  (text.reverse.dropWhile isUnicode).reverse

/-- Drop the Unicode blanks on both sides. -/
def trim (text : List Char) : List Char :=
  trimEnd (trimStart text)

theorem isUnicode_of_isAscii {c : Char} (h : isAscii c) : isUnicode c := by
  simp only [isAscii, Bool.or_eq_true, decide_eq_true_eq] at h
  rcases h with (((h | h) | h) | h) | h <;> subst h <;> decide

end Targeting.Blank
