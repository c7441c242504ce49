/-
# Numbers in JSON

A number without fraction and exponent is an integer if it fits a word, signed or unsigned; all
others are floating-point numbers. These are not the nearest ones to what is written: as many
digits as fit a word are taken as they stand, the others only count or are dropped, and the
result is scaled by a power of ten with one rounding for every step of up to 308 places.
-/

import Targeting.Number.Binary64
import Targeting.Number.Decimal
import Targeting.Number.Text

namespace Targeting

/-- A number of a JSON text. -/
inductive Json.Number where
  | natural (n : UInt64)
  /-- A negative integer. -/
  | negative (i : Int64)
  | real (x : Float)
  deriving Repr, DecidableEq

namespace Json.Number

/-- The number as a word, if it is an integer in range. -/
def int? : Number → Option Int64
  | natural n => Word.ofInt? n.toNat
  | negative i => some i
  | real _ => none

/-- The number in floating point. -/
def toFloat : Number → Float
  | natural n => n.toFloat
  | negative i => Binary64.ofWord i
  | real x => x

/-- Text of a number. -/
def render : Number → String
  | natural n => String.ofList (Digits.ofNat n.toNat)
  | negative i => Word.render i
  | real x => NumberText.render NumberText.json x

/-- A significand that has taken as many digits as fit a word, and a power of ten. -/
structure Scaled where
  significand : Nat
  exponent : Int
  deriving Repr, DecidableEq

/-- Take the integer digits. Once a digit does not fit, it and all further digits only count. -/
def Scaled.ofInteger : Nat → List Char → Scaled
  | significand, [] => ⟨significand, 0⟩
  | significand, c :: rest =>
    let next := 10 * significand + (Digits.value? c).getD 0
    if next < Nat.pow 2 64 then ofInteger next rest else ⟨significand, (rest.length : Int) + 1⟩

/-- Take the digits of the fraction. Once a digit does not fit, it and all further digits are
dropped. -/
def Scaled.addFraction : Scaled → List Char → Scaled
  | s, [] => s
  | s, c :: rest =>
    let next := 10 * s.significand + (Digits.value? c).getD 0
    if next < Nat.pow 2 64 then addFraction ⟨next, s.exponent - 1⟩ rest else s

/-- A power of ten in floating point, for exponents up to 308. -/
def power (exponent : Nat) : Float := Decimal.toFloat 1 exponent

/-- Scale a number by a power of ten. Nothing results beyond the range of numbers. The fuel
bounds the steps; a number is zero after three steps down. -/
def scale (x : Float) (exponent : Int) : Nat → Option Float
  | 0 => some x
  | fuel + 1 =>
    if exponent.natAbs ≤ 308 then
      if 0 ≤ exponent then
        let product := x * power exponent.natAbs
        if product.isInf then none else some product
      else some (x / power exponent.natAbs)
    else if x == 0.0 then some x
    else if 0 ≤ exponent then none
    else scale (x / power 308) (exponent + 308) fuel

/-- Value of a scaled significand. Exponents are kept within 32 bits. -/
def Scaled.value? (s : Scaled) (isNegative : Bool) : Option Float :=
  let exponent := max Int32.minValue.toInt (min s.exponent Int32.maxValue.toInt)
  (scale (UInt64.ofNat s.significand).toFloat exponent 8).map fun x => if isNegative then -x else x

/-- The written exponent of a number: absent, or a sign and digits. -/
inductive Exponent where
  | absent
  | power (isNegative : Bool) (digits : List Char)

/-- The number of a sign, integer digits, fraction digits and an exponent. Nothing results when
it is beyond the range of numbers. -/
def ofParts? (isNegative : Bool) (integer : List Char) (fraction : Option (List Char))
    (exponent : Exponent) : Option Number :=
  let whole := Scaled.ofInteger 0 integer
  let inFloat := fun (s : Scaled) => (s.value? isNegative).map real
  match fraction, exponent with
  | none, .absent =>
    if whole.exponent ≠ 0 then inFloat whole
    else if !isNegative then some (natural (UInt64.ofNat whole.significand))
    else if whole.significand = 0 ∨ Nat.pow 2 63 < whole.significand then inFloat whole
    else (Word.ofInt? (-(whole.significand : Int))).map negative
  | fraction, exponent =>
    let scaled := whole.addFraction (fraction.getD [])
    match exponent with
    | .absent => inFloat scaled
    | .power down digits =>
      let size := Digits.accumulate 0 digits
      if size < Nat.pow 2 31 then
        inFloat ⟨scaled.significand, scaled.exponent + (if down then -(size : Int) else size)⟩
      else if scaled.significand ≠ 0 ∧ !down then none
      else some (real (if isNegative then -0.0 else 0.0))

end Json.Number

end Targeting
