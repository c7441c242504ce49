/-
# Shortest decimal that reads back

Of the decimals that round to a given floating-point number, the shortest has the fewest
digits, and of those it is the one nearest to the number. A decimal rounds to a number when
it lies in the interval that reaches half way to the neighbours on both sides; the ends of
the interval belong to it exactly when the mantissa is even.

If some decimal with `n` digits lies in the interval, so does one of the two that enclose the
number on that grid, so it suffices to test those two for `n = 1, 2, …, 17`.
-/

import Targeting.Number.Binary64

namespace Targeting.Shortest

/-- The value `digits * 10 ^ exponent`. -/
structure Decimal where
  digits : Nat
  exponent : Int
  deriving Repr, DecidableEq

/-- A positive rational number. -/
structure Ratio where
  num : Nat
  den : Nat

/-- Count of decimal digits of a natural number. -/
def width (n : Nat) : Nat := (Digits.ofNat n).length

/-- The exponent `k` with `10 ^ (k - 1) ≤ r < 10 ^ k`, for a positive ratio that is not an
exact negative power of ten. -/
def Ratio.magnitude (r : Ratio) : Int :=
  if r.den ≤ r.num then width (r.num / r.den) else 1 - width (r.den / r.num)

/-- Multiply by a power of ten. -/
def Ratio.scale (r : Ratio) : Int → Ratio
  | .ofNat k => ⟨r.num * Nat.pow 10 k, r.den⟩
  | .negSucc k => ⟨r.num, r.den * Nat.pow 10 (k + 1)⟩

/-- The interval of numbers that round to `mantissa * 2 ^ exponent`, in quarters of the unit
in the last place: the number itself is at `4 * mantissa`. Below a power of two the lower
neighbour is only half as far away. -/
structure Interval where
  below : Nat
  above : Nat
  closed : Bool

/-- The rounding interval of a mantissa. -/
def Interval.of (p : Binary64.Parts) : Interval :=
  let narrow := p.mantissa = Nat.pow 2 52 ∧ p.exponent ≠ -1074
  ⟨if narrow then 4 * p.mantissa - 1 else 4 * p.mantissa - 2, 4 * p.mantissa + 2,
    p.mantissa % 2 = 0⟩

/-- A quarter of the unit in the last place, as a ratio. -/
def quarterUnit (p : Binary64.Parts) : Ratio :=
  match p.exponent - 2 with
  | .ofNat e => ⟨Nat.pow 2 e, 1⟩
  | .negSucc e => ⟨1, Nat.pow 2 (e + 1)⟩

/-- Whether `count` steps of a grid, of which `step.den` make `step.num` quarter units, lie in
the interval. -/
def Interval.holds (i : Interval) (step : Ratio) (count : Nat) : Bool :=
  let low := i.below * step.den
  let high := i.above * step.den
  let here := count * step.num
  if i.closed then low ≤ here && here ≤ high else low < here && here < high

/-- The best decimal with `places` digits, if one rounds to the number. -/
def candidate? (p : Binary64.Parts) (places : Nat) : Option Decimal :=
  let quarter := quarterUnit p
  let value : Ratio := ⟨4 * p.mantissa * quarter.num, quarter.den⟩
  let exponent := value.magnitude - places
  let onGrid := value.scale (-exponent)
  let floor := onGrid.num / onGrid.den
  let interval := Interval.of p
  -- One grid step is `10 ^ exponent`; measured in quarter units it is `step`.
  let step := (Ratio.mk quarter.den quarter.num).scale exponent
  let down := interval.holds step floor
  let up := interval.holds step (floor + 1)
  let twiceRest := 2 * (onGrid.num % onGrid.den)
  let nearerDown := twiceRest < onGrid.den || (twiceRest = onGrid.den && floor % 2 = 0)
  if down && (nearerDown || !up) then some ⟨floor, exponent⟩
  else if up then some ⟨floor + 1, exponent⟩
  else none

/-- Drop trailing zeros; at most `fuel` of them. -/
def Decimal.trim (d : Decimal) : Nat → Decimal
  | 0 => d
  | fuel + 1 =>
    if d.digits % 10 = 0 ∧ d.digits ≠ 0 then
      Decimal.trim ⟨d.digits / 10, d.exponent + 1⟩ fuel
    else d

/-- The shortest decimal of a positive finite number, without trailing zeros. Seventeen digits
always suffice; zero is its own shortest decimal. -/
def decimal (p : Binary64.Parts) : Decimal :=
  if p.mantissa = 0 then ⟨0, 0⟩
  else
    let best := (List.range 17).findSome? fun n => candidate? p (n + 1)
    (best.getD ⟨p.mantissa, 0⟩).trim 20

end Targeting.Shortest
