/-
# Decimal digits

Reading and writing natural numbers and signed words in decimal. A numeral is a nonempty run
of ASCII digits; a signed numeral may carry one leading sign. Leading zeros are allowed and
carry no meaning, so reading is not injective, but every written numeral reads back.
-/

namespace Targeting.Digits

/-- Value of an ASCII decimal digit. Digits of other scripts have none. -/
def value? (c : Char) : Option Nat :=
  if c.isDigit then some (c.toNat - '0'.toNat) else none

/-- Positional value of a run of digits read after `seen`. Other characters count as zero, so
callers restrict the run first. -/
def accumulate (seen : Nat) (digits : List Char) : Nat :=
  digits.foldl (fun total c => 10 * total + (value? c).getD 0) seen

/-- A nonempty run of ASCII digits and nothing else. -/
def natural? (text : List Char) : Option Nat :=
  if text ≠ [] ∧ text.all Char.isDigit then some (accumulate 0 text) else none

/-- A numeral with at most one leading `+`, as unsigned fields are written. -/
def unsigned? : List Char → Option Nat
  | '+' :: digits => natural? digits
  | digits => natural? digits

/-- A numeral with at most one leading sign. -/
def signed? : List Char → Option Int
  | '-' :: digits => (natural? digits).map fun n => -(n : Int)
  | digits => (unsigned? digits).map Int.ofNat

/-- The decimal digits of a natural number, without leading zeros. -/
def ofNat (n : Nat) : List Char :=
  Nat.toDigits 10 n

/-- The decimal digits of an integer, with a leading `-` when it is negative. -/
def ofInt : Int → List Char
  | .ofNat n => ofNat n
  | .negSucc n => '-' :: ofNat (n + 1)

/-- The decimal digits of `n`, filled on the left with `fill` to at least `width` places. -/
def padded (fill : Char) (width n : Nat) : List Char :=
  let digits := ofNat n
  List.replicate (width - digits.length) fill ++ digits

end Targeting.Digits
