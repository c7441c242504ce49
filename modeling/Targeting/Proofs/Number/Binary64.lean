/-
# Comparable numbers

Two floating-point numbers that are neither less than nor greater than nor equal
to each other include NaN: no other pair of numbers is incomparable. The number
nearest to a word is never NaN, so exact numbers can always be compared. Scaling a
number by one that is finite and not zero makes no NaN either. All of this is read
off the unpacked form of a floating-point number.

No comparison sees the sign of a zero, and every number is equal to itself.
-/

import Mathlib
import Targeting.Number.Binary64

namespace Targeting.Binary64

open Float.Model (UnpackedFloat Format)
open Float.Model.UnpackedFloat

/-! ## Incomparable numbers -/

theorem swap_compare_finite (e₁ e₂ : Int) (m₁ m₂ : Nat) :
    ((compare e₁ e₂).then (compare m₁ m₂)).swap = (compare e₂ e₁).then (compare m₂ m₁) := by
  rw [Ordering.swap_then, ← Std.OrientedCmp.eq_swap, ← Std.OrientedCmp.eq_swap]

/-- Turning a comparison around swaps its outcome. -/
theorem compare_swap (a b : UnpackedFloat) : b.compare a = (a.compare b).map Ordering.swap := by
  rcases a with (_ | _) | _ | _ | ⟨(_ | _), m₁, e₁, hm₁⟩ <;>
    rcases b with (_ | _) | _ | _ | ⟨(_ | _), m₂, e₂, hm₂⟩ <;>
    try rfl
  all_goals
    simp only [UnpackedFloat.compare, Option.map_some, swap_compare_finite]

theorem isNaN_of_compare_eq_none {a b : UnpackedFloat} (h : a.compare b = none) :
    a.isNaN ∨ b.isNaN := by
  rcases a with (_ | _) | _ | _ | ⟨(_ | _), m₁, e₁, hm₁⟩ <;>
    rcases b with (_ | _) | _ | _ | ⟨(_ | _), m₂, e₂, hm₂⟩ <;>
    first | exact .inl rfl | exact .inr rfl | cases h

/-- Only NaN is incomparable. -/
theorem isNaN_of_incomparable {x y : Float} (hlt : ¬ x < y) (hgt : ¬ y < x)
    (heq : (x == y) = false) : x.isNaN ∨ y.isNaN := by
  let a := x.toModel.unpack
  let b := y.toModel.unpack
  have hlt : (a.compare b == some .lt) ≠ true := fun h => hlt (decide_eq_true h)
  have hgt : (b.compare a == some .lt) ≠ true := fun h => hgt (decide_eq_true h)
  have heq : (a.compare b == some .eq) = false := heq
  refine isNaN_of_compare_eq_none (a := a) (b := b) ?_
  rw [compare_swap] at hgt
  cases horder : a.compare b with
  | none => rfl
  | some order =>
      rw [horder] at hlt hgt heq
      cases order
      case lt => exact absurd rfl hlt
      case eq => cases heq
      case gt => exact absurd rfl hgt

/-! ## Numbers nearest to words -/

/-- A number with a fitting exponent, or with an empty fraction, is not NaN. -/
theorem isNaN_unpack_packComponents {spec : Format} {sign : Sign}
    {exponent : BitVec spec.exponentBits} {mantissa : BitVec spec.mantissaBitsWithoutImplicit}
    (h : exponent ≠ -1#_ ∨ mantissa = 0#_) :
    (unpack spec (packComponents spec sign exponent mantissa)).isNaN = false := by
  simp only [unpack, unpackExponent_packComponents, unpackMantissa_packComponents]
  split
  · next hexponent =>
      rw [if_pos (h.resolve_left (not_not_intro hexponent))]
      rfl
  · split
    · split <;> rfl
    · rfl

/-- Packing makes no NaN of a number. -/
theorem isNaN_unpack_pack {spec : Format} {f : UnpackedFloat} (hf : f.isNaN = false) :
    (unpack spec (pack spec f)).isNaN = false := by
  cases f with
  | notANumber => cases hf
  | infinity sign => exact isNaN_unpack_packComponents (.inr rfl)
  | zero sign => exact isNaN_unpack_packComponents (.inr rfl)
  | finite sign mantissa exponent hmantissa =>
      rw [pack]
      split
      · exact isNaN_unpack_packComponents (.inr rfl)
      split
      · refine isNaN_unpack_packComponents (.inl fun hexponent => ?_)
        have hvalue := congrArg BitVec.toNat hexponent
        rw [BitVec.toNat_ofNat, BitVec.neg_one_eq_allOnes, BitVec.toNat_allOnes] at hvalue
        rw [Nat.mod_eq_of_lt (by omega)] at hvalue
        omega
      · refine isNaN_unpack_packComponents (.inl fun hexponent => ?_)
        have hvalue := congrArg BitVec.toNat hexponent
        rw [BitVec.toNat_ofNat, Nat.zero_mod, BitVec.neg_one_eq_allOnes, BitVec.toNat_allOnes]
          at hvalue
        have hpow := Nat.one_lt_two_pow (Nat.ne_of_gt spec.he)
        omega

theorem isNaN_round (spec : Format) (sign : Sign) (mantissa : Nat) (exponent : Int) :
    (UnpackedFloat.round spec sign mantissa exponent).isNaN = false := by
  simp only [UnpackedFloat.round, roundWithAccuracy]
  split <;> rfl

/-- Rounding makes no NaN of a number. -/
theorem isNaN_normalize (spec : Format) (mantissa exponent : Int) (zeroSign : Sign) :
    (UnpackedFloat.normalize spec mantissa exponent zeroSign).isNaN = false := by
  rw [UnpackedFloat.normalize]
  split
  · exact isNaN_round _ _ _ _
  · rfl
  · exact isNaN_round _ _ _ _

theorem isNaN_neg {f : UnpackedFloat} : f.neg.isNaN = f.isNaN := by
  cases f <;> rfl

theorem isNaN_toFloat (n : UInt64) : n.toFloat.isNaN = false :=
  isNaN_unpack_pack (isNaN_normalize _ _ _ _)

/-- The opposite of a number is a number. -/
theorem isNaN_neg_eq_false {x : Float} (h : x.isNaN = false) : (-x).isNaN = false :=
  isNaN_unpack_pack (isNaN_neg.trans h)

/-- The number nearest to a word is a number. -/
theorem isNaN_ofWord (a : Int64) : (ofWord a).isNaN = false := by
  rw [ofWord]
  split
  · exact isNaN_neg_eq_false (isNaN_toFloat _)
  · exact isNaN_toFloat _

/-! ## Products and quotients -/

/-- Whether a number is neither zero nor infinite. -/
def isOrdinary (x : Float) : Bool :=
  match x.toModel.unpack with
  | .finite .. => true
  | .infinity _ | .notANumber | .zero _ => false

theorem exists_finite_of_isOrdinary {x : Float} (h : isOrdinary x) :
    ∃ sign mantissa exponent hmantissa,
      x.toModel.unpack = .finite sign mantissa exponent hmantissa := by
  rw [isOrdinary] at h
  cases hx : x.toModel.unpack with
  | finite sign mantissa exponent hmantissa => exact ⟨sign, mantissa, exponent, hmantissa, rfl⟩
  | infinity _ | notANumber | zero _ => simp [hx] at h

theorem isNaN_roundWithAccuracy (spec : Format) (sign : Sign) (mantissa : Nat) (exponent : Int)
    (accuracy : Accuracy) :
    (roundWithAccuracy spec sign mantissa exponent accuracy).isNaN = false := by
  simp only [roundWithAccuracy]
  split <;> rfl

/-- A product with an ordinary number is a number. -/
theorem isNaN_mul {x y : Float} (hx : x.isNaN = false) (hy : isOrdinary y) :
    (x * y).isNaN = false := by
  obtain ⟨sign, mantissa, exponent, hmantissa, hfinite⟩ := exists_finite_of_isOrdinary hy
  refine isNaN_unpack_pack (f := .mul _ x.toModel.unpack y.toModel.unpack) ?_
  change x.toModel.unpack.isNaN = false at hx
  rw [hfinite]
  cases hvalue : x.toModel.unpack with
  | notANumber => simp [hvalue, UnpackedFloat.isNaN] at hx
  | infinity _ | zero _ => rfl
  | finite _ _ _ _ => exact isNaN_roundWithAccuracy ..

/-- A quotient by an ordinary number is a number. -/
theorem isNaN_div {x y : Float} (hx : x.isNaN = false) (hy : isOrdinary y) :
    (x / y).isNaN = false := by
  obtain ⟨sign, mantissa, exponent, hmantissa, hfinite⟩ := exists_finite_of_isOrdinary hy
  refine isNaN_unpack_pack (f := .div _ x.toModel.unpack y.toModel.unpack) ?_
  change x.toModel.unpack.isNaN = false at hx
  rw [hfinite]
  cases hvalue : x.toModel.unpack with
  | notANumber => simp [hvalue, UnpackedFloat.isNaN] at hx
  | infinity _ | zero _ => rfl
  | finite _ _ _ _ => exact isNaN_roundWithAccuracy ..

/-! ## Equal numbers -/

theorem unpack_zero : (0 : Float).toModel.unpack = .zero .positive := rfl

theorem exists_zero_of_compare_eq {a : UnpackedFloat} {sign : Sign}
    (h : a.compare (.zero sign) = some .eq) : ∃ sign', a = .zero sign' := by
  rcases a with (_ | _) | _ | sign' | ⟨(_ | _), m, e, hm⟩
  case zero => exact ⟨sign', rfl⟩
  all_goals cases h

/-- Comparing does not see the sign of a zero. -/
theorem compare_zero (sign sign' : Sign) (a : UnpackedFloat) :
    (UnpackedFloat.zero sign).compare a = (UnpackedFloat.zero sign').compare a := by
  rcases a with (_ | _) | _ | _ | ⟨(_ | _), m, e, hm⟩ <;> rfl

/-- Zeros are equal to the same numbers. -/
theorem beq_eq_zero_beq {x : Float} (h : x == 0) (y : Float) : (x == y) = ((0 : Float) == y) := by
  have hcompare : x.toModel.unpack.compare (0 : Float).toModel.unpack = some .eq := eq_of_beq h
  rw [unpack_zero] at hcompare
  obtain ⟨sign, hx⟩ := exists_zero_of_compare_eq hcompare
  change (x.toModel.unpack.compare y.toModel.unpack == some .eq) =
    ((0 : Float).toModel.unpack.compare y.toModel.unpack == some .eq)
  rw [hx, unpack_zero, compare_zero sign .positive]

theorem compare_self {a : UnpackedFloat} (h : a.isNaN = false) : a.compare a = some .eq := by
  rcases a with (_ | _) | _ | _ | ⟨(_ | _), m, e, hm⟩
  case notANumber => cases h
  case infinity.negative | infinity.positive => decide
  all_goals simp [UnpackedFloat.compare]

/-- A number is equal to itself. -/
theorem beq_self_of_isNaN_eq_false {x : Float} (h : x.isNaN = false) : x == x := by
  have hcompare : x.toModel.unpack.compare x.toModel.unpack = some .eq := compare_self h
  change (x.toModel.unpack.compare x.toModel.unpack == some .eq) = true
  rw [hcompare]
  rfl

end Targeting.Binary64
