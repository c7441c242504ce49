/-
# Numerals that were written read back

A nonempty run of digits is read as what it stands for in decimal notation. The
decimal digits of a natural number are such a run, and reading them gives the
number. The same holds of the words that are not negative.
-/

import Mathlib.Data.Nat.Digits.Defs
import Targeting.Number.Word

namespace Targeting

namespace Digits

theorem isDigit_of_mem_ofNat {n : Nat} {c : Char} (hc : c ∈ ofNat n) : c.isDigit :=
  Nat.isDigit_of_mem_toDigits (by decide) (by decide) hc

theorem ofNat_ne_nil (n : Nat) : ofNat n ≠ [] :=
  Nat.toDigits_ne_nil

/-- Reading digits one after the other is positional notation. -/
theorem accumulate_eq_ofDigitChars {digits : List Char} (hdigits : ∀ c ∈ digits, c.isDigit)
    (seen : Nat) : accumulate seen digits = Nat.ofDigitChars 10 digits seen := by
  unfold accumulate
  induction digits generalizing seen with
  | nil => rfl
  | cons c rest ih =>
      obtain ⟨hc, hrest⟩ := List.forall_mem_cons.1 hdigits
      have hvalue : (value? c).getD 0 = c.toNat - '0'.toNat := by
        simp [value?, hc]
      rw [List.foldl_cons, hvalue, ih hrest, Nat.ofDigitChars_cons]

/-! ## Runs of digits -/

section Run

variable {digits : List Char}

theorem natural?_of_digits (hne : digits ≠ []) (hdigits : ∀ c ∈ digits, c.isDigit) :
    natural? digits = some (Nat.ofDigitChars 10 digits 0) := by
  rw [natural?, if_pos ⟨hne, List.all_eq_true.2 hdigits⟩, accumulate_eq_ofDigitChars hdigits]

/-- A digit is no sign. -/
theorem unsigned?_of_digits (hne : digits ≠ []) (hdigits : ∀ c ∈ digits, c.isDigit) :
    unsigned? digits = some (Nat.ofDigitChars 10 digits 0) := by
  unfold unsigned?
  split
  · exact absurd (hdigits '+' List.mem_cons_self) (by decide)
  · exact natural?_of_digits hne hdigits

/-- A numeral without a sign is read as the natural number it stands for. -/
theorem signed?_of_digits (hne : digits ≠ []) (hdigits : ∀ c ∈ digits, c.isDigit) :
    signed? digits = some (Nat.ofDigitChars 10 digits 0 : Int) := by
  unfold signed?
  split
  · exact absurd (hdigits '-' List.mem_cons_self) (by decide)
  · rw [unsigned?_of_digits hne hdigits]
    rfl

end Run

/-- In a numeral no character other than digits stands behind the first. -/
theorem signed?_eq_none {first c : Char} {rest : List Char} (hc : c ∈ rest)
    (hother : c.isDigit = false) : signed? (first :: rest) = none := by
  have hrest : ¬ rest.all Char.isDigit := fun hall =>
    Bool.false_ne_true (hother.symm.trans (List.all_eq_true.1 hall c hc))
  have hwhole : ¬ (first :: rest).all Char.isDigit := by
    rw [List.all_cons, Bool.and_eq_true]
    exact fun h => hrest h.2
  unfold signed? unsigned?
  split
  case h_1 digits heq =>
    cases heq
    rw [natural?, if_neg fun h => hrest h.2]
    rfl
  case h_2 =>
    split
    case h_1 digits heq =>
      cases heq
      rw [natural?, if_neg fun h => hrest h.2]
      rfl
    case h_2 =>
      rw [natural?, if_neg fun h => hwhole h.2]
      rfl

theorem unsigned?_ofNat (n : Nat) : unsigned? (ofNat n) = some n := by
  rw [unsigned?_of_digits (ofNat_ne_nil n) fun _ hc => isDigit_of_mem_ofNat hc, ofNat,
    Nat.ofDigitChars_ten_toDigits]

theorem signed?_ofNat (n : Nat) : signed? (ofNat n) = some (n : Int) := by
  rw [signed?_of_digits (ofNat_ne_nil n) fun _ hc => isDigit_of_mem_ofNat hc, ofNat,
    Nat.ofDigitChars_ten_toDigits]

/-! ## A fixed number of places -/

section Padded

variable {places n : Nat}

theorem isDigit_of_mem_padded {c : Char} (hc : c ∈ padded '0' places n) : c.isDigit := by
  obtain hzero | hdigit := List.mem_append.1 hc
  · rw [List.eq_of_mem_replicate hzero]
    decide
  · exact isDigit_of_mem_ofNat hdigit

theorem length_padded (hplaces : 0 < places) (hn : n < 10 ^ places) :
    (padded '0' places n).length = places := by
  have hlength : (ofNat n).length ≤ places :=
    (Nat.length_toDigits_le_iff (by decide) hplaces).2 hn
  rw [padded, List.length_append, List.length_replicate, Nat.sub_add_cancel hlength]

/-- Zeros in front do not count. -/
theorem accumulate_padded : accumulate 0 (padded '0' places n) = n := by
  rw [accumulate_eq_ofDigitChars fun _ => isDigit_of_mem_padded, padded,
    Nat.ofDigitChars_append, Nat.ofDigitChars_replicate_zero, Nat.mul_zero, ofNat,
    Nat.ofDigitChars_ten_toDigits]

end Padded

end Digits

theorem Word.parse?_ofNat {i : Int64} (hi : 0 ≤ i) :
    Word.parse? (Digits.ofNat i.toInt.toNat) = some i := by
  have hnonneg : 0 ≤ i.toInt := Int64.le_iff_toInt_le.1 hi
  rw [Word.parse?, Digits.signed?_ofNat, Option.bind_some, Int.toNat_of_nonneg hnonneg,
    Word.ofInt?_toInt]

end Targeting
