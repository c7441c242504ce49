/-
# The curve of the signatures

The curve `y ^ 2 = x ^ 3 - 3 * x + b` over a prime field, known as P-256 and secp256r1. Its
points form a group of prime order. Sums are computed in coordinates that need no division;
only the result is divided out.
-/

import Targeting.Crypto.Octets

namespace Targeting.Curve

/-- The prime of the field of coordinates. -/
def prime : Nat := 0xffffffff00000001000000000000000000000000ffffffffffffffffffffffff

/-- The constant term of the curve. -/
def constant : Nat := 0x5ac635d8aa3a93e7b3ebbd55769886bc651d06b0cc53b0f63bce3c3e27d2604b

/-- The order of the group of points. -/
def order : Nat := 0xffffffff00000000ffffffffffffffffbce6faada7179e84f3b9cac2fc632551

/-- Bytes of a coordinate and of a number below the order. -/
def width : Nat := 32

/-- A power of a number modulo another, `bits` being a bound on the bits of the exponent. -/
def power (modulus base : Nat) : (bits exponent : Nat) → Nat
  | 0, _ => 1
  | bits + 1, exponent =>
    let half := power modulus base bits (exponent / 2)
    let square := half * half % modulus
    if exponent % 2 = 1 then square * base % modulus else square

/-- The inverse of a number modulo a prime of 256 bits. -/
def inverse (modulus n : Nat) : Nat := power modulus (n % modulus) 256 (modulus - 2)

/-- Difference modulo the prime. -/
def minus (a b : Nat) : Nat := (a + prime - b % prime) % prime

/-- The right-hand side of the equation of the curve. -/
def cubic (x : Nat) : Nat := (minus (x * x * x) (3 * x) + constant) % prime

/-- A point with coordinates. -/
structure Point where
  x : Nat
  y : Nat
  deriving Repr, DecidableEq

/-- Whether a point lies on the curve. -/
def Point.isOn (p : Point) : Bool :=
  p.x < prime && p.y < prime && p.y * p.y % prime = cubic p.x

/-- The point that generates the group. -/
def generator : Point where
  x := 0x6b17d1f2e12c4247f8bce6e563a440f277037d812deb33a0f4a13945d898c296
  y := 0x4fe342e2fe1a7f9b8ee7eb4a7c0f9e162bce33576b315ececbb6406837bf51f5

/-- A point `(x / z ^ 2, y / z ^ 3)`; the neutral element has `z = 0`. -/
structure Projective where
  x : Nat
  y : Nat
  z : Nat

namespace Projective

/-- The neutral element. -/
def zero : Projective := ⟨1, 1, 0⟩

/-- A point with coordinates. -/
def ofPoint (p : Point) : Projective := ⟨p.x, p.y, 1⟩

/-- Twice a point. -/
def double (p : Projective) : Projective :=
  if p.z = 0 ∨ p.y = 0 then zero
  else
    let yy := p.y * p.y % prime
    let s := 4 * p.x * yy % prime
    let zz := p.z * p.z % prime
    let m := 3 * minus p.x zz * (p.x + zz) % prime
    let x := minus (m * m) (2 * s)
    ⟨x, minus (m * minus s x) (8 * yy * yy), 2 * p.y * p.z % prime⟩

/-- Sum of two points. -/
def add (p q : Projective) : Projective :=
  if p.z = 0 then q
  else if q.z = 0 then p
  else
    let pzz := p.z * p.z % prime
    let qzz := q.z * q.z % prime
    let u1 := p.x * qzz % prime
    let u2 := q.x * pzz % prime
    let s1 := p.y * (qzz * q.z % prime) % prime
    let s2 := q.y * (pzz * p.z % prime) % prime
    if u1 = u2 then if s1 = s2 then double p else zero
    else
      let h := minus u2 u1
      let r := minus s2 s1
      let hh := h * h % prime
      let hhh := hh * h % prime
      let v := u1 * hh % prime
      let x := minus (minus (r * r) hhh) (2 * v)
      ⟨x, minus (r * minus v x) (s1 * hhh), h * (p.z * q.z % prime) % prime⟩

/-- Coordinates of a point; the neutral element has none. -/
def toPoint? (p : Projective) : Option Point :=
  if p.z % prime = 0 then none
  else
    let inverseZ := inverse prime p.z
    let square := inverseZ * inverseZ % prime
    some ⟨p.x * square % prime, p.y * (square * inverseZ % prime) % prime⟩

/-- A multiple of a point, `bits` being a bound on the bits of the factor. -/
def multiple (p : Projective) : (bits factor : Nat) → Projective
  | 0, _ => zero
  | bits + 1, factor =>
    let twice := double (multiple p bits (factor / 2))
    if factor % 2 = 1 then add twice p else twice

end Projective

/-- A multiple of a point, as a sum still to be divided out. -/
def times (factor : Nat) (p : Point) : Projective := (Projective.ofPoint p).multiple 256 factor

/-- Bytes of a point: a mark and both coordinates. -/
def Point.bytes (p : Point) : List UInt8 :=
  0x04 :: Octets.ofNat width p.x ++ Octets.ofNat width p.y

/-- A square root modulo the prime, if there is one. -/
def root? (n : Nat) : Option Nat :=
  let candidate := power prime n 256 ((prime + 1) / 4)
  if candidate * candidate % prime = n % prime then some candidate else none

/-- The point with a first coordinate and a parity of the second one. -/
def ofParity? (x : Nat) (odd : Bool) : Option Point :=
  if x < prime then do
    let y ← root? (cubic x)
    some ⟨x, if (y % 2 = 1) = odd then y else prime - y⟩
  else none

/-- The point that bytes stand for: both coordinates, or the first one and a mark that says
which of the two possible second ones is meant. -/
def ofBytes? : List UInt8 → Option Point
  | [] => none
  | mark :: rest =>
    let x := Octets.toNat (rest.take width)
    if mark = 0x04 ∧ rest.length = 2 * width then
      let p : Point := ⟨x, Octets.toNat (rest.drop width)⟩
      if p.isOn then some p else none
    else if rest.length = width then
      if mark = 0x02 then ofParity? x false
      else if mark = 0x03 then ofParity? x true
      else if mark = 0x05 then
        (ofParity? x false).map fun p => ⟨x, min p.y (prime - p.y)⟩
      else none
    else none

end Targeting.Curve
