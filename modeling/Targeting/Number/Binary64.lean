/-
# Binary64 numbers as exact rationals

A finite floating-point number is a sign, a mantissa and a power of two. The conversions to
integers and from words below are stated on that exact value, so rounding happens once and
in a named direction.
-/

import Targeting.Number.Word

namespace Targeting.Binary64

/-- The exact value `(-1) ^ negative * mantissa * 2 ^ exponent` of a finite number. -/
structure Parts where
  negative : Bool
  mantissa : Nat
  exponent : Int
  deriving Repr, DecidableEq

/-- What a floating-point number denotes. -/
inductive Meaning where
  | nan
  | infinite (negative : Bool)
  | finite (parts : Parts)
  deriving Repr, DecidableEq

/-- Read the sign, exponent and fraction fields. A zero exponent field marks the numbers
without a hidden leading bit. -/
def meaning (x : Float) : Meaning :=
  let bits : Nat := x.toBits.toNat
  let negative := bits / Nat.pow 2 63 == 1
  let exponent : Nat := bits / Nat.pow 2 52 % Nat.pow 2 11
  let fraction : Nat := bits % Nat.pow 2 52
  if exponent = 2047 then
    if fraction = 0 then .infinite negative else .nan
  else if exponent = 0 then .finite ⟨negative, fraction, -1074⟩
  else .finite ⟨negative, Nat.pow 2 52 + fraction, (exponent : Int) - 1075⟩

/-- Magnitude of the nearest integer; a half goes away from zero. -/
def Parts.roundedMagnitude (p : Parts) : Nat :=
  match p.exponent with
  | .ofNat e => p.mantissa * Nat.pow 2 e
  | .negSucc e => (2 * p.mantissa + Nat.pow 2 (e + 1)) / Nat.pow 2 (e + 2)

/-- The nearest integer; a half goes away from zero. -/
def Parts.round (p : Parts) : Int :=
  if p.negative then -(p.roundedMagnitude : Int) else p.roundedMagnitude

/-- The nearest word: halves go away from zero, numbers beyond the range to its ends, and NaN
to zero. -/
def toWord (x : Float) : Int64 :=
  match meaning x with
  | .nan => 0
  | .infinite true => Int64.minValue
  | .infinite false => Int64.maxValue
  | .finite p => Word.clamp p.round

/-- The floating-point number nearest to a word; a tie goes to the even mantissa. -/
def ofWord (a : Int64) : Float :=
  if a < 0 then -(UInt64.ofNat a.toInt.natAbs).toFloat else (UInt64.ofNat a.toInt.natAbs).toFloat

end Targeting.Binary64
