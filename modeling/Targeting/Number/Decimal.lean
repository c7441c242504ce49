/-
# Decimal numbers

The floating-point number nearest to a decimal. Rounding is exact: a decimal is a ratio of
natural numbers, and the nearest number is found on that ratio, a tie going to the even
mantissa and a magnitude beyond the range to infinity.
-/

import Targeting.Number.Digits

namespace Targeting.Decimal

/-- The number nearest to `digits * 10 ^ exponent`. -/
def toFloat (digits : Nat) (exponent : Int) : Float :=
  Float.ofScientific digits (decide (exponent < 0)) exponent.natAbs

/-- The number nearest to a numeral with integer digits, fraction digits and an exponent. -/
def ofParts (integer fraction : List Char) (exponent : Int) : Float :=
  toFloat (Digits.accumulate (Digits.accumulate 0 integer) fraction) (exponent - fraction.length)

end Targeting.Decimal
