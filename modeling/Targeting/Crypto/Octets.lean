/-
# Numbers as octets

Natural numbers written with the most significant byte first.
-/

namespace Targeting.Octets

/-- The number that bytes write. -/
def toNat (bytes : List UInt8) : Nat :=
  bytes.foldl (fun n b => 256 * n + b.toNat) 0

/-- The lowest bytes of a number, as many as asked for. -/
def ofNat : (width : Nat) → Nat → List UInt8
  | 0, _ => []
  | width + 1, n => ofNat width (n / 256) ++ [UInt8.ofNat n]

/-- The fewest bytes of a number; zero has one. -/
def shortest (n : Nat) : List UInt8 :=
  match (ofNat (Nat.log2 n / 8 + 1) n) with
  | [] => [0]
  | bytes => bytes

end Targeting.Octets
