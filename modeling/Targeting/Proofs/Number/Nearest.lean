/-
# The floating-point numbers nearest to words

A word is rounded to fifty-three significant binary digits, and a tie goes to the even
number of them. The result is written down here on unbounded integers. The conversion
finds it by shifting the word to the right digit by digit and keeping two bits of what
falls off, and then rounds once. What the two bits say about the remainder is an
invariant of a shift.

A number that is not zero has only one representation with all fifty-three digits, so two
words have equal floating-point numbers exactly if they round to the same integer. Up to
two to the fifty-third nothing is rounded. Beyond it neighbours are no longer told apart.
-/

import Targeting.Proofs.Number.Binary64

namespace Targeting.Binary64

open Float.Model (Format UnpackedFloat totalExponent)
open Float.Model.UnpackedFloat

/-! ## Rounding -/

/-- The integer nearest to a quotient; a tie goes to the even one. -/
def nearestQuotient (n unit : Nat) : Nat :=
  if 2 * (n % unit) < unit then n / unit
  else if 2 * (n % unit) = unit then n / unit + n / unit % 2
  else n / unit + 1

/-- The nearest multiple of the power of two that leaves fifty-three binary digits. -/
def nearestMagnitude (n : Nat) : Nat :=
  nearestQuotient n (2 ^ (n.log2 - 52)) * 2 ^ (n.log2 - 52)

/-- The nearest integer with no more than fifty-three significant binary digits. -/
def nearest (z : Int) : Int := z.sign * nearestMagnitude z.natAbs

/-- What the two bits beside a mantissa tell about the remainder: the first one whether it reaches
a half, the second one whether it is neither zero nor a half. -/
structure Keeps (em : ExtendedMantissa) (n unit : Nat) : Prop where
  quotient : em.mantissa = n / unit
  half : em.roundBit = true ↔ unit ≤ 2 * (n % unit)
  rest : em.stickyBit = true ↔ n % unit ≠ 0 ∧ 2 * (n % unit) ≠ unit

theorem keeps_start (n : Nat) : Keeps (.ofMantissaAndAccuracy n .exact) n 1 := by
  constructor <;> simp [ExtendedMantissa.ofMantissaAndAccuracy, Nat.mod_one]

/-- A shift drops one digit more. -/
theorem Keeps.shiftRightOne {em : ExtendedMantissa} {n unit : Nat} (hunit : 0 < unit)
    (h : Keeps em n unit) : Keeps em.shiftRightOne n (unit * 2) := by
  obtain ⟨hquotient, hhalf, hrest⟩ := h
  have hmod : n % (unit * 2) = n % unit + unit * (n / unit % 2) := Nat.mod_mul
  have hlt : n % unit < unit := Nat.mod_lt n hunit
  constructor
  case quotient =>
      rw [ExtendedMantissa.shiftRightOne, hquotient, Nat.div_div_eq_div_mul]
  case half =>
      rw [hmod]
      simp only [ExtendedMantissa.shiftRightOne, hquotient, bne_iff_ne]
      obtain hbit | hbit := Nat.mod_two_eq_zero_or_one (n / unit) <;> rw [hbit] <;> omega
  case rest =>
      rw [hmod]
      simp only [ExtendedMantissa.shiftRightOne, Bool.or_eq_true, hhalf, hrest]
      obtain hbit | hbit := Nat.mod_two_eq_zero_or_one (n / unit) <;> rw [hbit] <;> omega

theorem keeps_shiftRight (n shift : Nat) :
    Keeps (ExtendedMantissa.ofMantissaAndAccuracy n .exact >>> shift) n (2 ^ shift) := by
  induction shift with
  | zero => exact keeps_start n
  | succ shift ih => exact ih.shiftRightOne (Nat.two_pow_pos shift)

/-- The two bits are enough to round. -/
theorem Keeps.roundedMantissa_eq {em : ExtendedMantissa} {n unit : Nat} (hunit : 0 < unit)
    (h : Keeps em n unit) : em.roundedMantissa = nearestQuotient n unit := by
  obtain ⟨mantissa, half, rest⟩ := em
  obtain ⟨rfl, hhalf, hrest⟩ := h
  simp only at hhalf hrest
  rw [nearestQuotient]
  cases half <;> cases rest <;>
    simp only [Bool.false_eq_true, false_iff, true_iff] at hhalf hrest <;>
    simp only [ExtendedMantissa.roundedMantissa, ExtendedMantissa.accuracy,
      Accuracy.roundToNearestEven]
  · rw [if_pos (by omega)]
  · rw [if_pos (by omega)]
  · rw [if_neg (by omega), if_pos (by omega)]
  · rw [if_neg (by omega), if_neg (by omega)]

theorem nearestQuotient_bounds (n unit : Nat) :
    n / unit ≤ nearestQuotient n unit ∧ nearestQuotient n unit ≤ n / unit + 1 := by
  rw [nearestQuotient]
  split
  · omega
  · split <;> omega

theorem nearestQuotient_one (n : Nat) : nearestQuotient n 1 = n := by
  simp [nearestQuotient, Nat.mod_one]

/-- Fifty-three digits are kept as they are. -/
theorem nearestMagnitude_of_log2_le {n : Nat} (h : n.log2 ≤ 52) : nearestMagnitude n = n := by
  rw [nearestMagnitude, Nat.sub_eq_zero_of_le h, Nat.pow_zero, nearestQuotient_one, Nat.mul_one]

/-! ## The conversion -/

theorem targetExponent_eq {m : Nat} {e : Int} (h : -1022 ≤ m.log2 + e) :
    Format.binary64.targetExponent (totalExponent m e) = m.log2 + e - 52 := by
  simp only [Format.targetExponent, totalExponent, Format.mantissaBits, Format.minExponent]
  omega

/-- Digits beyond the fifty-third are shifted out. -/
theorem shiftToTargetExponent_eq {m shift : Nat} {e : Int} (hlog : m.log2 = 52 + shift)
    (he : -1074 ≤ e) : shiftToTargetExponent Format.binary64 m e .exact =
      (ExtendedMantissa.ofMantissaAndAccuracy m .exact >>> shift, e + shift) := by
  have htarget : Format.binary64.targetExponent (totalExponent m e) = e + shift := by
    rw [targetExponent_eq] <;> omega
  have hshift : (e + shift - e).toNat = shift := by omega
  rw [shiftToTargetExponent, htarget, shiftToExponent, hshift]

/-- A rounded mantissa may have become a power of two that is too long, which is shifted once more
without loss. -/
theorem shiftToTargetExponent_rounded {m : Nat} {e : Int} (hlower : 2 ^ 52 ≤ m) (hupper : m ≤ 2 ^ 53)
    (he : -1074 ≤ e) :
    ∃ em exponent, shiftToTargetExponent Format.binary64 m e .exact = (em, exponent) ∧
      em.mantissa.log2 = 52 ∧
      (exponent = e ∧ em.mantissa = m ∨ exponent = e + 1 ∧ 2 * em.mantissa = m) := by
  obtain hfits | rfl : m < 2 ^ 53 ∨ m = 2 ^ 53 := by omega
  · have hlog : m.log2 = 52 + 0 := (Nat.log2_eq_iff (by omega)).2 ⟨hlower, hfits⟩
    have hsame := (keeps_shiftRight m 0).quotient
    rw [Nat.pow_zero, Nat.div_one] at hsame
    exact ⟨_, _, shiftToTargetExponent_eq hlog he, by rw [hsame, hlog],
      .inl ⟨Int.add_zero e, hsame⟩⟩
  · have hlog : (2 ^ 53 : Nat).log2 = 52 + 1 := Nat.log2_two_pow
    have hhalf := (keeps_shiftRight (2 ^ 53) 1).quotient
    rw [show (2 ^ 53 / 2 ^ 1 : Nat) = 2 ^ 52 from rfl] at hhalf
    exact ⟨_, _, shiftToTargetExponent_eq hlog he, by rw [hhalf, Nat.log2_two_pow],
      .inr ⟨rfl, by rw [hhalf]; rfl⟩⟩

/-- The mantissa is rounded to fifty-three digits. -/
theorem exists_roundWithAccuracy_eq (sign : Sign) {m : Nat} (shift : Nat) {e : Int}
    (hlog : m.log2 = 52 + shift) (he : -1074 ≤ e) :
    ∃ mantissa exponent hpos,
      roundWithAccuracy Format.binary64 sign m e .exact = .finite sign mantissa exponent hpos ∧
        mantissa.log2 = 52 ∧
        (exponent = e + shift ∧ mantissa = nearestQuotient m (2 ^ shift) ∨
          exponent = e + shift + 1 ∧ 2 * mantissa = nearestQuotient m (2 ^ shift)) := by
  have hunit := Nat.two_pow_pos shift
  have hm : m ≠ 0 := by
    rintro rfl
    rw [Nat.log2_zero] at hlog
    omega
  have hlower : 2 ^ 52 ≤ m / 2 ^ shift := by
    rw [Nat.le_div_iff_mul_le hunit, ← Nat.pow_add, ← hlog]
    exact Nat.log2_self_le hm
  have hupper : m / 2 ^ shift < 2 ^ 53 := by
    rw [Nat.div_lt_iff_lt_mul hunit, ← Nat.pow_add, show 53 + shift = m.log2 + 1 by omega]
    exact Nat.lt_log2_self
  obtain ⟨hleast, hmost⟩ := nearestQuotient_bounds m (2 ^ shift)
  have hrounded := (keeps_shiftRight m shift).roundedMantissa_eq hunit
  obtain ⟨em, exponent, hsecond, hlog', hresult⟩ :=
    @shiftToTargetExponent_rounded (nearestQuotient m (2 ^ shift)) (e + shift)
      (by omega) (by omega) (by omega)
  have hne : em.mantissa ≠ 0 := by
    intro hzero
    rw [hzero, Nat.log2_zero] at hlog'
    omega
  refine ⟨em.mantissa, exponent, Nat.pos_of_ne_zero hne, ?_, hlog', hresult⟩
  rw [roundWithAccuracy, shiftToTargetExponent_eq hlog he]
  simp only [hrounded, hsecond, hne, dite_false]

theorem log2_mul_two_pow {n : Nat} (hn : n ≠ 0) (shift : Nat) :
    (n * 2 ^ shift).log2 = n.log2 + shift := by
  induction shift with
  | zero => rw [Nat.pow_zero, Nat.mul_one, Nat.add_zero]
  | succ shift ih =>
      rw [Nat.pow_succ, ← Nat.mul_assoc, Nat.mul_comm _ 2, Nat.log2_two_mul, ih, Nat.add_assoc]
      exact Nat.mul_ne_zero hn (Nat.two_pow_pos shift).ne'

/-- An integer up to sixty-four digits long becomes a mantissa with fifty-three digits. -/
theorem exists_round_eq (sign : Sign) {n : Nat} (hn : n ≠ 0) (hlong : n < 2 ^ 64) :
    ∃ mantissa exponent hpos,
      UnpackedFloat.round Format.binary64 sign n 0 = .finite sign mantissa exponent hpos ∧
        mantissa.log2 = 52 ∧ -52 ≤ exponent ∧ exponent ≤ 12 ∧
        mantissa * 2 ^ (exponent + 52).toNat = nearestMagnitude n * 2 ^ 52 := by
  have hlog : n.log2 < 64 := (Nat.log2_lt hn).2 hlong
  have htarget : Format.binary64.targetExponent (totalExponent n 0) = n.log2 - 52 := by
    rw [targetExponent_eq (by omega), Int.add_zero]
  have hmore : (0 - ((n.log2 : Int) - 52)).toNat = 52 - n.log2 := by omega
  obtain ⟨mantissa, exponent, hpos, hround, hmantissa, hresult⟩ :=
    exists_roundWithAccuracy_eq sign (m := n <<< (52 - n.log2)) (n.log2 - 52)
      (e := 0 - (52 - n.log2 : Nat))
      (by rw [Nat.shiftLeft_eq, log2_mul_two_pow hn]; omega) (by omega)
  refine ⟨mantissa, exponent, hpos, ?_, hmantissa, by omega, by omega, ?_⟩
  · rw [UnpackedFloat.round, htarget, decreaseExponent, hmore]
    exact hround
  have hscaled : mantissa * 2 ^ (exponent + 52).toNat =
      nearestQuotient (n <<< (52 - n.log2)) (2 ^ (n.log2 - 52)) * 2 ^ n.log2 := by
    obtain ⟨hexponent, hquotient⟩ | ⟨hexponent, hquotient⟩ := hresult
    · rw [show (exponent + 52).toNat = n.log2 by omega, hquotient]
    · rw [show (exponent + 52).toNat = n.log2 + 1 by omega, ← hquotient, Nat.pow_succ]
      ring
  rw [hscaled]
  obtain hshort | hmany := Nat.le_total n.log2 52
  · rw [nearestMagnitude_of_log2_le hshort, Nat.sub_eq_zero_of_le hshort, Nat.pow_zero,
      nearestQuotient_one, Nat.shiftLeft_eq, Nat.mul_assoc, ← Nat.pow_add, Nat.sub_add_cancel hshort]
  · rw [nearestMagnitude, Nat.sub_eq_zero_of_le hmany, Nat.shiftLeft_zero, Nat.mul_assoc,
      ← Nat.pow_add, Nat.sub_add_cancel hmany]

/-! ## Packing -/

theorem unpackSign_packComponents {spec : Format} {sign : Sign}
    {exponent : BitVec spec.exponentBits} {mantissa : BitVec spec.mantissaBitsWithoutImplicit} :
    unpackSign (packComponents spec sign exponent mantissa) = sign.toBitVec := by
  ext i hi
  obtain rfl : i = 0 := by omega
  simp [unpackSign, packComponents, BitVec.getLsbD_append, BitVec.getElem_append]

/-- A mantissa with fifty-three digits and an exponent that is small enough are packed without
loss. -/
theorem unpack_pack_finite {sign : Sign} {mantissa : Nat} {exponent : Int} {hpos : 0 < mantissa}
    (hlog : mantissa.log2 = 52) (hfrom : -1074 ≤ exponent) (hto : exponent ≤ 971) :
    unpack Format.binary64 (pack Format.binary64 (.finite sign mantissa exponent hpos)) =
      .finite sign mantissa exponent hpos := by
  obtain ⟨hlower, hupper⟩ := (Nat.log2_eq_iff hpos.ne').1 hlog
  have hbiased : (exponent + Format.binary64.exponentBias +
      Format.binary64.mantissaBitsWithoutImplicit).toNat = (exponent + 1075).toNat := by
    change (exponent + 1023 + 52).toNat = _
    omega
  have hfinite : ¬ 2 ^ Format.binary64.exponentBits ≤ (exponent + 1075).toNat + 1 := by
    change ¬ 2048 ≤ _
    omega
  have hexponent : (BitVec.ofNat 11 (exponent + 1075).toNat).toNat = (exponent + 1075).toNat := by
    rw [BitVec.toNat_ofNat]
    omega
  have hnotLast : BitVec.ofNat 11 (exponent + 1075).toNat ≠ -1#_ := by
    intro h
    have hvalue := congrArg BitVec.toNat h
    rw [hexponent] at hvalue
    change _ = 2047 at hvalue
    omega
  have hnotFirst : BitVec.ofNat 11 (exponent + 1075).toNat ≠ 0#_ := by
    intro h
    have hvalue := congrArg BitVec.toNat h
    rw [hexponent] at hvalue
    change _ = 0 at hvalue
    omega
  have hmantissa : (1#1 ++ BitVec.ofNat 52 mantissa).toNat = mantissa := by
    rw [BitVec.toNat_append, BitVec.toNat_ofNat, Nat.shiftLeft_eq, Nat.or_comm]
    change mantissa % 2 ^ 52 ||| 1 * 2 ^ 52 = mantissa
    rw [Nat.one_mul, Nat.or_two_pow_eq_add_of_lt (Nat.mod_lt _ (Nat.two_pow_pos 52))]
    omega
  have hsign : Sign.ofBitVec sign.toBitVec = sign := by cases sign <;> rfl
  have hunbiased : ((exponent + 1075).toNat : Int) -
      (Format.binary64.exponentBias + Format.binary64.mantissaBitsWithoutImplicit) = exponent := by
    change _ - (1023 + 52 : Int) = _
    omega
  simp only [pack, hbiased, if_neg hfinite, hlog]
  rw [if_pos (show 52 + 1 = Format.binary64.mantissaBits from rfl)]
  simp only [unpack, unpackMantissa_packComponents, unpackExponent_packComponents,
    unpackSign_packComponents, hsign]
  rw [if_neg hnotLast, if_neg hnotFirst]
  simp only [hexponent, hmantissa, hunbiased]

/-! ## Equal words -/

/-- A word other than zero becomes a number with its sign and with fifty-three digits. -/
theorem exists_unpack_ofWord (a : Int64) (ha : a.toInt ≠ 0) :
    ∃ mantissa exponent hpos,
      (ofWord a).toModel.unpack =
        .finite (if a.toInt < 0 then .negative else .positive) mantissa exponent hpos ∧
      mantissa.log2 = 52 ∧ -52 ≤ exponent ∧
      mantissa * 2 ^ (exponent + 52).toNat = nearestMagnitude a.toInt.natAbs * 2 ^ 52 := by
  have hlong : a.toInt.natAbs < 2 ^ 64 := by
    have hfrom := a.le_toInt
    have hto := a.toInt_lt
    omega
  obtain ⟨mantissa, exponent, hpos, hround, hlog, hfrom, hto, hvalue⟩ :=
    exists_round_eq .positive (Int.natAbs_ne_zero.2 ha) hlong
  refine ⟨mantissa, exponent, hpos, ?_, hlog, hfrom, hvalue⟩
  have hmagnitude : (UInt64.ofNat a.toInt.natAbs).toFloat.toModel.unpack =
      .finite .positive mantissa exponent hpos := by
    have hcompare : compare ((UInt64.ofNat a.toInt.natAbs).toNat : Int) 0 = .gt := by
      rw [UInt64.toNat_ofNat_of_lt' hlong, Int.compare_eq_gt]
      omega
    change unpack _ (pack _ (UnpackedFloat.normalize _ ((UInt64.ofNat _).toNat : Int) 0 _)) = _
    rw [UnpackedFloat.normalize, hcompare]
    simp only [Int.toNat_natCast, UInt64.toNat_ofNat_of_lt' hlong]
    rw [hround, unpack_pack_finite hlog (by omega) (by omega)]
  have hneg : a < 0 ↔ a.toInt < 0 := Int64.lt_iff_toInt_lt
  rw [ofWord]
  by_cases hlt : a.toInt < 0
  · rw [if_pos (hneg.2 hlt), if_pos hlt]
    change unpack _ (pack _ (UnpackedFloat.neg (UInt64.ofNat _).toFloat.toModel.unpack)) = _
    rw [hmagnitude]
    exact unpack_pack_finite hlog (by omega) (by omega)
  · rw [if_neg fun h => hlt (hneg.1 h), if_neg hlt, hmagnitude]

/-- There is one way to write a number with fifty-three digits. -/
theorem eq_of_scaled_eq {m₁ m₂ k₁ k₂ : Nat} (h₁ : m₁.log2 = 52) (h₂ : m₂.log2 = 52)
    (h : m₁ * 2 ^ k₁ = m₂ * 2 ^ k₂) : m₁ = m₂ ∧ k₁ = k₂ := by
  have hpos {m : Nat} (hlog : m.log2 = 52) : m ≠ 0 := by
    rintro rfl
    rw [Nat.log2_zero] at hlog
    omega
  have hlog := congrArg Nat.log2 h
  rw [log2_mul_two_pow (hpos h₁), log2_mul_two_pow (hpos h₂)] at hlog
  obtain rfl : k₁ = k₂ := by omega
  exact ⟨Nat.eq_of_mul_eq_mul_right (Nat.two_pow_pos k₁) h, rfl⟩

theorem compare_finite_eq_iff {s₁ s₂ : Sign} {m₁ m₂ : Nat} {e₁ e₂ : Int} {h₁ : 0 < m₁}
    {h₂ : 0 < m₂} :
    UnpackedFloat.compare (.finite s₁ m₁ e₁ h₁) (.finite s₂ m₂ e₂ h₂) = some .eq ↔
      s₁ = s₂ ∧ e₁ = e₂ ∧ m₁ = m₂ := by
  cases s₁ <;> cases s₂ <;>
    simp [UnpackedFloat.compare, Ordering.then_eq_eq, Ordering.swap_eq_eq]

theorem nearestMagnitude_pos {n : Nat} (hn : n ≠ 0) : 0 < nearestMagnitude n := by
  have hunit : 2 ^ (n.log2 - 52) ≤ n :=
    Nat.le_trans (Nat.pow_le_pow_right (by decide) (Nat.sub_le _ _)) (Nat.log2_self_le hn)
  have hquotient : 0 < n / 2 ^ (n.log2 - 52) := Nat.div_pos hunit (Nat.two_pow_pos _)
  exact Nat.mul_pos (Nat.lt_of_lt_of_le hquotient (nearestQuotient_bounds _ _).1)
    (Nat.two_pow_pos _)

/-- Rounding keeps the sign. -/
theorem nearest_eq_iff {i j : Int} (hi : i ≠ 0) (hj : j ≠ 0) :
    nearest i = nearest j ↔
      (i < 0 ↔ j < 0) ∧ nearestMagnitude i.natAbs = nearestMagnitude j.natAbs := by
  have hi' := nearestMagnitude_pos (Int.natAbs_ne_zero.2 hi)
  have hj' := nearestMagnitude_pos (Int.natAbs_ne_zero.2 hj)
  rw [nearest, nearest]
  obtain hineg | hipos := Int.lt_or_gt_of_ne hi <;> obtain hjneg | hjpos := Int.lt_or_gt_of_ne hj
  · rw [Int.sign_eq_neg_one_of_neg hineg, Int.sign_eq_neg_one_of_neg hjneg]
    omega
  · rw [Int.sign_eq_neg_one_of_neg hineg, Int.sign_eq_one_of_pos hjpos]
    omega
  · rw [Int.sign_eq_one_of_pos hipos, Int.sign_eq_neg_one_of_neg hjneg]
    omega
  · rw [Int.sign_eq_one_of_pos hipos, Int.sign_eq_one_of_pos hjpos]
    omega

theorem nearest_eq_zero_iff {z : Int} : nearest z = 0 ↔ z = 0 := by
  constructor
  · intro h
    by_contra hz
    obtain hsign | hmagnitude := Int.mul_eq_zero.1 h
    · exact hz (Int.sign_eq_zero_iff_zero.1 hsign)
    · have hpos := nearestMagnitude_pos (Int.natAbs_ne_zero.2 hz)
      omega
  · rintro rfl
    rfl

/-- Two words have equal floating-point numbers exactly if they round to the same integer. -/
theorem ofWord_beq_iff (a b : Int64) :
    ofWord a == ofWord b ↔ nearest a.toInt = nearest b.toInt := by
  have hbeq : ofWord a == ofWord b ↔
      (ofWord a).toModel.unpack.compare (ofWord b).toModel.unpack = some .eq := by
    change (_ == some Ordering.eq) = true ↔ _
    exact beq_iff_eq
  have hzero {c : Int64} (hc : c.toInt = 0) : (ofWord c).toModel.unpack = .zero .positive := by
    obtain rfl : c = 0 := Int64.toInt_inj.1 hc
    rfl
  rw [hbeq]
  by_cases ha : a.toInt = 0 <;> by_cases hb : b.toInt = 0
  · rw [hzero ha, hzero hb, ha, hb]
    simp [UnpackedFloat.compare]
  · obtain ⟨m, e, hm, hunpack, -⟩ := exists_unpack_ofWord b hb
    rw [hzero ha, hunpack, ha]
    have hne : nearest 0 ≠ nearest b.toInt := fun h => hb (nearest_eq_zero_iff.1 h.symm)
    split <;> simp [UnpackedFloat.compare, hne]
  · obtain ⟨m, e, hm, hunpack, -⟩ := exists_unpack_ofWord a ha
    rw [hzero hb, hunpack, hb]
    have hne : nearest a.toInt ≠ nearest 0 := fun h => ha (nearest_eq_zero_iff.1 h)
    split <;> simp [UnpackedFloat.compare, hne]
  · obtain ⟨m₁, e₁, h₁, hunpack₁, hlog₁, hfrom₁, hvalue₁⟩ := exists_unpack_ofWord a ha
    obtain ⟨m₂, e₂, h₂, hunpack₂, hlog₂, hfrom₂, hvalue₂⟩ := exists_unpack_ofWord b hb
    rw [hunpack₁, hunpack₂, compare_finite_eq_iff, nearest_eq_iff ha hb]
    refine and_congr ?_ ⟨?_, fun hmagnitude => ?_⟩
    · by_cases hneg₁ : a.toInt < 0 <;> by_cases hneg₂ : b.toInt < 0 <;> simp [hneg₁, hneg₂]
    · rintro ⟨rfl, rfl⟩
      exact Nat.eq_of_mul_eq_mul_right (Nat.two_pow_pos 52) (hvalue₁.symm.trans hvalue₂)
    · rw [hmagnitude, ← hvalue₂] at hvalue₁
      obtain ⟨hmantissa, hexponent⟩ := eq_of_scaled_eq hlog₁ hlog₂ hvalue₁
      exact ⟨by omega, hmantissa⟩

/-- Words that are not too large are not rounded. -/
theorem nearest_of_natAbs_le {z : Int} (h : z.natAbs ≤ 2 ^ 53) : nearest z = z := by
  have hmagnitude : nearestMagnitude z.natAbs = z.natAbs := by
    obtain hzero | hpos := Nat.eq_zero_or_pos z.natAbs
    · rw [hzero]
      rfl
    obtain hfits | hpower : z.natAbs < 2 ^ 53 ∨ z.natAbs = 2 ^ 53 := by omega
    · exact nearestMagnitude_of_log2_le (Nat.le_of_lt_succ ((Nat.log2_lt hpos.ne').2 hfits))
    · rw [hpower, nearestMagnitude, Nat.log2_two_pow]
      rfl
  rw [nearest, hmagnitude, Int.sign_mul_natAbs]

end Targeting.Binary64
