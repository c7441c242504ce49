/-
# Members of objects that were read

The members of an object that was read from a text are sorted by name, and no two of them have the
same name. A number among them is a number: its digits are taken as a word, which is then scaled by
powers of ten, and neither makes NaN.

Members are values that the reader found, so whatever holds of all values that it finds holds of
them. How an object is nested does not matter.
-/

import Targeting.Json.Written
import Targeting.Proofs.Number.Nearest
import Targeting.Proofs.Text.SortedNames

namespace Targeting.Json

open Binary64 (exists_roundWithAccuracy_eq isNaN_div isNaN_mul isNaN_neg_eq_false isNaN_ofWord
  isNaN_toFloat isOrdinary log2_mul_two_pow unpack_pack_finite)
open Float.Model (Format UnpackedFloat)
open Float.Model.UnpackedFloat (pack roundWithAccuracy unpack)

/-! ## Numbers -/

namespace Number

/-- A power of ten beyond the exact ones is a product that is rounded once. -/
theorem unpack_power {exponent : Nat} (hfrom : 22 < exponent) (hto : exponent ≤ 2048) :
    (power exponent).toModel.unpack =
      unpack Format.binary64 (pack Format.binary64
        (roundWithAccuracy Format.binary64 .positive (1 <<< 53 * 10 ^ exponent) (-53) .exact)) := by
  have hsmall : ¬(1 < 2 ^ 53 ∧ exponent ≤ 22) := by omega
  have hsign : decide ((exponent : Int) < 0) = false := decide_eq_false (by omega)
  have hfinite : ¬(exponent : Int) > 2 ^ Format.binary64.exponentBits := by
    change ¬(exponent : Int) > 2048
    omega
  have hnotZero : ¬(exponent : Int) < -(2 ^ Format.binary64.exponentBits + (1 : Nat).log2) := by
    change ¬(exponent : Int) < -2048
    omega
  rw [power, Decimal.toFloat, Float.ofScientific, Int.natAbs_natCast, dif_neg hsmall, hsign]
  change unpack _ (pack _ (UnpackedFloat.ofScientific Format.binary64 1 exponent)) = _
  rw [UnpackedFloat.ofScientific, dif_neg Nat.one_ne_zero, if_neg hfinite, if_neg hnotZero,
    if_pos (Int.natCast_nonneg exponent)]
  rfl

/-- What a power of ten is rounded to has fifty-three digits and an exponent in range. The last power
is left out: a carry would take the exponent that is shown here beyond the range. -/
theorem isOrdinary_power_of_rounded {exponent : Nat} (hfrom : 22 < exponent)
    (hto : exponent ≤ 307) : isOrdinary (power exponent) := by
  have hlog : (10 ^ exponent).log2 < 1023 := by
    refine (Nat.log2_lt (Nat.pow_pos (by decide)).ne').2 ?_
    calc 10 ^ exponent ≤ 10 ^ 307 := Nat.pow_le_pow_right (by decide) hto
      _ < 2 ^ 1023 := by decide +kernel
  have hdigits : (1 <<< 53 * 10 ^ exponent).log2 = 52 + ((10 ^ exponent).log2 + 1) := by
    rw [Nat.one_shiftLeft, Nat.mul_comm, log2_mul_two_pow (Nat.pow_pos (by decide)).ne']
    omega
  obtain ⟨mantissa, e, hpos, hround, hmantissa, hresult⟩ :=
    exists_roundWithAccuracy_eq .positive _ hdigits (e := -53) (by decide)
  rw [isOrdinary, unpack_power hfrom (by omega), hround,
    unpack_pack_finite hmantissa (by omega) (by omega)]

/-- The powers of ten are neither zero nor infinite. -/
theorem isOrdinary_power {exponent : Nat} (h : exponent ≤ 308) : isOrdinary (power exponent) := by
  -- Up to the twenty-second, powers are taken from a table.
  have hexact : ∀ exponent < 23, isOrdinary (power exponent) := by decide +kernel
  have hlast : isOrdinary (power 308) := by decide +kernel
  obtain hfew | hmany := Nat.lt_or_ge exponent 23
  · exact hexact exponent hfew
  · obtain rfl | hless := Nat.eq_or_lt_of_le h
    · exact hlast
    · exact isOrdinary_power_of_rounded hmany (Nat.le_of_lt_succ hless)

/-- Scaling makes no NaN of a number. -/
theorem isNaN_scale {x y : Float} {exponent : Int} {fuel : Nat} (hx : x.isNaN = false)
    (h : scale x exponent fuel = some y) : y.isNaN = false := by
  induction fuel generalizing x exponent with
  | zero =>
      obtain rfl := Option.some.inj h
      exact hx
  | succ fuel ih =>
      rw [scale] at h
      split at h
      case isTrue hsize =>
        have hpower := isOrdinary_power hsize
        split at h
        case isTrue =>
          dsimp only at h
          split at h
          case isTrue => cases h
          case isFalse =>
            obtain rfl := Option.some.inj h
            exact isNaN_mul hx hpower
        case isFalse =>
          obtain rfl := Option.some.inj h
          exact isNaN_div hx hpower
      case isFalse =>
        split at h
        case isTrue =>
          obtain rfl := Option.some.inj h
          exact hx
        case isFalse =>
          split at h
          case isTrue => cases h
          case isFalse =>
            have hpower := isOrdinary_power (Nat.le_refl 308)
            exact ih (isNaN_div hx hpower) h

theorem Scaled.isNaN_value? {s : Scaled} {isNegative : Bool} {x : Float}
    (h : s.value? isNegative = some x) : x.isNaN = false := by
  obtain ⟨y, hscale, rfl⟩ := Option.map_eq_some_iff.1 h
  have hy := isNaN_scale (isNaN_toFloat _) hscale
  split
  case isTrue => exact isNaN_neg_eq_false hy
  case isFalse => exact hy

section Parts

variable {isNegative : Bool} {integer : List Char} {fraction : Option (List Char)}
  {exponent : Exponent}

/-- A number that is not kept as a word is a scaled one, or zero with an exponent that is out of
range. -/
theorem scaled_or_zero_of_ofParts? {x : Float}
    (h : ofParts? isNegative integer fraction exponent = some (real x)) :
    (∃ s : Scaled, s.value? isNegative = some x) ∨ x = if isNegative then -0.0 else 0.0 := by
  have hfloat {s : Scaled} (hs : (s.value? isNegative).map real = some (real x)) :
      ∃ s : Scaled, s.value? isNegative = some x := by
    obtain ⟨y, hvalue, hy⟩ := Option.map_eq_some_iff.1 hs
    obtain rfl := Number.real.inj hy
    exact ⟨s, hvalue⟩
  simp only [ofParts?] at h
  split at h
  -- Without fraction and exponent, the number is only real if it does not fit a word.
  case h_1 =>
    split at h
    case isTrue => exact .inl (hfloat h)
    case isFalse =>
      split at h
      case isTrue => cases h
      case isFalse =>
        split at h
        case isTrue => exact .inl (hfloat h)
        case isFalse => simp [Option.map_eq_some_iff] at h
  case h_2 =>
    split at h
    case h_1 => exact .inl (hfloat h)
    case h_2 =>
      split at h
      case isTrue => exact .inl (hfloat h)
      case isFalse =>
        split at h
        case isTrue => cases h
        case isFalse => exact .inr (Number.real.inj (Option.some.inj h)).symm

/-- What is read as a number is a number. -/
theorem isNaN_ofParts? {n : Number}
    (h : ofParts? isNegative integer fraction exponent = some n) : n.toFloat.isNaN = false := by
  cases n with
  | natural n => exact isNaN_toFloat n
  | negative i => exact isNaN_ofWord i
  | real x =>
      obtain ⟨s, hvalue⟩ | rfl := scaled_or_zero_of_ofParts? h
      · exact Scaled.isNaN_value? hvalue
      · cases isNegative <;> decide +kernel

end Parts

end Number

/-! ## What the reader finds -/

namespace Written.Reader

variable {fuel : Nat} {bytes rest : List UInt8} {w : Written}

theorem exists_parts_of_number {n : Option Number} (h : number bytes = some (n, rest)) :
    ∃ isNegative integer fraction exponent,
      Number.ofParts? isNegative integer fraction exponent = n := by
  unfold number at h
  -- Digits follow whether or not there is a sign.
  split at h
  obtain ⟨⟨integer, after⟩, -, h⟩ := Option.bind_eq_some_iff.1 h
  dsimp only at h
  split at h
  case isTrue => cases h
  case isFalse =>
    -- Whether or not there is a fraction, an exponent may follow.
    split at h
    all_goals
      obtain ⟨⟨fraction, after⟩, -, h⟩ := Option.bind_eq_some_iff.1 h
      dsimp only at h
      split at h
      all_goals
        obtain ⟨⟨exponent, after⟩, -, h⟩ := Option.bind_eq_some_iff.1 h
        exact ⟨_, _, _, _, (Prod.mk.inj (Option.some.inj h)).1⟩

/-- A value that the reader finds somewhere. -/
def Found (w : Written) : Prop := ∃ fuel bytes rest, value fuel bytes = some (w, rest)

theorem found_of_member {name : Option String}
    (h : member fuel bytes = some ((name, w), rest)) : Found w := by
  cases fuel with
  | zero => cases h
  | succ fuel =>
      rw [member] at h
      split at h
      case h_1 =>
        obtain ⟨⟨units, after⟩, -, h⟩ := Option.bind_eq_some_iff.1 h
        dsimp only at h
        split at h
        case h_1 =>
          obtain ⟨⟨found, after⟩, hvalue, h⟩ := Option.bind_eq_some_iff.1 h
          cases h
          exact ⟨_, _, _, hvalue⟩
        case h_2 => cases h
      case h_2 => cases h

theorem found_of_members {members : List (Option String × Written)}
    (h : Reader.members fuel bytes = some (members, rest)) : ∀ m ∈ members, Found m.2 := by
  induction fuel generalizing bytes members with
  | zero => cases h
  | succ fuel ih =>
      rw [Reader.members] at h
      split at h
      case h_1 =>
        cases h
        exact nofun
      case h_2 =>
        obtain ⟨⟨⟨name, first⟩, after⟩, hfirst, h⟩ := Option.bind_eq_some_iff.1 h
        obtain ⟨⟨others, after⟩, hothers, h⟩ := Option.bind_eq_some_iff.1 h
        cases h
        exact List.forall_mem_cons.2 ⟨found_of_member hfirst, ih hothers⟩
      case h_3 => cases h

/-- An object that the reader finds has members that it finds, and a number that it finds is made of
its parts. -/
theorem Found.cases (h : Found w) :
    (∀ members, w = .object members → ∀ m ∈ members, Found m.2) ∧
      ∀ n, w = .number n → ∃ isNegative integer fraction exponent,
        Number.ofParts? isNegative integer fraction exponent = n := by
  obtain ⟨fuel, bytes, rest, h⟩ := h
  cases fuel with
  | zero => cases h
  | succ fuel =>
      rw [value] at h
      split at h
      case h_1 => cases h
      case h_2 | h_3 | h_4 | h_5 =>
        obtain ⟨_, -, h⟩ := Option.map_eq_some_iff.1 h
        obtain ⟨rfl, -⟩ := Prod.mk.inj h
        exact ⟨nofun, nofun⟩
      case h_6 =>
        split at h
        case h_1 =>
          cases h
          exact ⟨nofun, nofun⟩
        case h_2 =>
          obtain ⟨_, -, h⟩ := Option.bind_eq_some_iff.1 h
          obtain ⟨_, -, h⟩ := Option.bind_eq_some_iff.1 h
          cases h
          exact ⟨nofun, nofun⟩
      case h_7 =>
        split at h
        case h_1 =>
          cases h
          refine ⟨?_, nofun⟩
          rintro _ ⟨⟩
          exact nofun
        case h_2 =>
          obtain ⟨⟨⟨name, first⟩, after⟩, hfirst, h⟩ := Option.bind_eq_some_iff.1 h
          obtain ⟨⟨others, after⟩, hothers, h⟩ := Option.bind_eq_some_iff.1 h
          cases h
          refine ⟨?_, nofun⟩
          rintro _ ⟨⟩
          exact List.forall_mem_cons.2 ⟨found_of_member hfirst, found_of_members hothers⟩
      case h_8 =>
        obtain ⟨⟨n, after⟩, hnumber, h⟩ := Option.map_eq_some_iff.1 h
        obtain ⟨rfl, -⟩ := Prod.mk.inj h
        refine ⟨nofun, ?_⟩
        rintro _ ⟨⟩
        exact exists_parts_of_number hnumber

end Written.Reader

/-! ## Values -/

namespace Written

variable {bytes : List UInt8} {depth : Nat} {w : Written}

theorem found_of_parse? (h : parse? bytes = some w) : Reader.Found w := by
  obtain ⟨⟨found, rest⟩, hvalue, h⟩ := Option.bind_eq_some_iff.1 h
  dsimp only at h
  split at h
  case isTrue =>
    cases h
    exact ⟨_, _, _, hvalue⟩
  case isFalse => cases h

theorem eq_number_of_value? {n : Number} (h : value? depth w = some (.number n)) :
    w = .number (some n) := by
  cases w with
  | number found =>
      rw [value?] at h
      obtain ⟨_, rfl, h⟩ := Option.map_eq_some_iff.1 h
      cases h
      rfl
  | null | bool _ => simp [value?] at h
  | text _ => simp [value?, Option.map_eq_some_iff] at h
  | array _ | object _ => cases depth <;> simp [value?, Option.map_eq_some_iff] at h

theorem exists_of_value?_eq_object {members : List (String × Json)}
    (h : value? depth w = some (.object members)) : ∃ written depth found, w = .object written ∧
      memberValues? depth written = some found ∧ NameMap.ofList found = members := by
  cases w with
  | object written =>
      cases depth with
      | zero => simp [value?] at h
      | succ depth =>
          rw [value?] at h
          obtain ⟨found, hfound, h⟩ := Option.map_eq_some_iff.1 h
          exact ⟨written, depth, found, rfl, hfound, Json.object.inj h⟩
  | null | bool _ => simp [value?] at h
  | number _ | text _ => simp [value?, Option.map_eq_some_iff] at h
  | array _ => cases depth <;> simp [value?, Option.map_eq_some_iff] at h

/-- The value of a member is that of a member that was written. -/
theorem exists_of_mem_memberValues? {written : List (Option String × Written)}
    {found : List (String × Json)} (h : memberValues? depth written = some found) :
    ∀ member ∈ found, ∃ m ∈ written, value? depth m.2 = some member.2 := by
  induction written generalizing found with
  | nil =>
      rw [memberValues?] at h
      cases h
      exact nofun
  | cons first rest ih =>
      obtain ⟨name, first⟩ := first
      rw [memberValues?] at h
      obtain ⟨_, -, h⟩ := Option.bind_eq_some_iff.1 h
      obtain ⟨value, hvalue, h⟩ := Option.bind_eq_some_iff.1 h
      obtain ⟨values, hvalues, h⟩ := Option.bind_eq_some_iff.1 h
      cases h
      refine List.forall_mem_cons.2 ⟨⟨_, List.mem_cons_self, hvalue⟩, fun member hmember => ?_⟩
      obtain ⟨m, hm, hsame⟩ := ih hvalues member hmember
      exact ⟨m, List.mem_cons_of_mem _ hm, hsame⟩

end Written

/-- The members of an object that was read are sorted, and the numbers among them are numbers. -/
theorem members_of_parse? {bytes : List UInt8} {members : List (String × Json)}
    (h : parse? bytes = some (.object members)) : NameMap.IsSorted members ∧
      ∀ name n, (name, .number n) ∈ members → n.toFloat.isNaN = false := by
  obtain ⟨w, hparse, hvalue⟩ := Option.bind_eq_some_iff.1 h
  obtain ⟨written, depth, found, rfl, hfound, rfl⟩ := Written.exists_of_value?_eq_object hvalue
  obtain ⟨hsorted, hsub⟩ := NameMap.isSorted_ofList found
  refine ⟨hsorted, fun name n hmem => ?_⟩
  obtain ⟨m, hm, hnumber⟩ := Written.exists_of_mem_memberValues? hfound _ (hsub _ hmem)
  have hread := ((Written.found_of_parse? hparse).cases.1 written rfl m hm).cases.2 _
    (Written.eq_number_of_value? hnumber)
  obtain ⟨isNegative, integer, fraction, exponent, hparts⟩ := hread
  exact Number.isNaN_ofParts? hparts

end Targeting.Json
