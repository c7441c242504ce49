/-
# Base64 gives the bytes back

What is written is read back as the same bytes. The characters it is written in are digits and
equals signs, so it can stand where blanks, colons and dashes have a meaning.
-/

import Mathlib.Tactic
import Targeting.Crypto.Base64
import Targeting.Text.Blank

namespace Targeting.Base64

/-- Whether a character can stand in base64 text. -/
def IsWritten (c : Char) : Prop := c = '=' ∨ ∃ n < 64, c = digit n

/-! ## Digits -/

theorem value?_digit {n : Nat} (hn : n < 64) : value? (digit n) = some n := by
  revert n
  decide +kernel

theorem digit_ne_equals {n : Nat} (hn : n < 64) : digit n ≠ '=' := by
  revert n
  decide +kernel

theorem isWritten_equals : IsWritten '=' := .inl rfl

theorem isWritten_digit {n : Nat} (hn : n < 64) : IsWritten (digit n) := .inr ⟨n, hn, rfl⟩

/-- Base64 text has no blanks, no colons and no dashes. -/
theorem IsWritten.plain {c : Char} (hc : IsWritten c) :
    Blank.isUnicode c = false ∧ c ≠ ':' ∧ c ≠ '-' := by
  obtain rfl | ⟨n, hn, rfl⟩ := hc
  · decide
  · revert n
    decide +kernel

/-! ## Groups of characters

A group holds a number below two to the twenty-fourth, and the bytes are read off that number. -/

/-- Four digits in front of a text are three bytes in front of its bytes. -/
theorem decode?_group {a b c d : Nat} {rest : List Char} {bytes : List UInt8} (ha : a < 64)
    (hb : b < 64) (hc : c < 64) (hd : d < 64) (hrest : decode? rest = some bytes) :
    decode? (digit a :: digit b :: digit c :: digit d :: rest) =
      some (UInt8.ofNat ((((a * 64 + b) * 64 + c) * 64 + d) / 65536) ::
        UInt8.ofNat ((((a * 64 + b) * 64 + c) * 64 + d) / 256) ::
        UInt8.ofNat (((a * 64 + b) * 64 + c) * 64 + d) :: bytes) := by
  have hnotEquals := digit_ne_equals hd
  rw [decode?]
  · simp [value?_digit, ha, hb, hc, hd, hrest]
  · rintro - hequals
    exact absurd hequals hnotEquals
  · exact fun hequals => absurd hequals hnotEquals

/-- The last group of two bytes. -/
theorem decode?_two {a b c : Nat} (ha : a < 64) (hb : b < 64) (hc : c < 64) (hfill : c % 4 = 0) :
    decode? [digit a, digit b, digit c, '='] =
      some [UInt8.ofNat (((a * 64 + b) * 64 + c) / 1024),
        UInt8.ofNat (((a * 64 + b) * 64 + c) / 4)] := by
  have hzero : ((a * 64 + b) * 64 + c) % 4 = 0 := by omega
  rw [decode?]
  · simp [value?_digit, ha, hb, hc, hzero]
  · exact fun hequals => absurd hequals (digit_ne_equals hc)

/-- The last group of one byte. -/
theorem decode?_one {a b : Nat} (ha : a < 64) (hb : b < 64) (hfill : b % 16 = 0) :
    decode? [digit a, digit b, '=', '='] = some [UInt8.ofNat ((a * 64 + b) / 16)] := by
  have hzero : (a * 64 + b) % 16 = 0 := by omega
  simp [decode?, value?_digit, ha, hb, hzero]

theorem ofNat_eq_of_mod_eq {n : Nat} (byte : UInt8) (h : n % 256 = byte.toNat) :
    UInt8.ofNat n = byte := by
  rw [← UInt8.toNat_inj, UInt8.toNat_ofNat', h]

/-! ## Texts -/

theorem decode?_encode (bytes : List UInt8) : decode? (encode bytes) = some bytes := by
  induction bytes using encode.induct with
  | case1 => rfl
  | case2 a =>
      have ha := a.toNat_lt
      rw [encode, decode?_one (by omega) (by omega) (by omega), ofNat_eq_of_mod_eq a (by omega)]
  | case3 a b =>
      have ha := a.toNat_lt
      have hb := b.toNat_lt
      rw [encode, decode?_two (by omega) (by omega) (by omega) (by omega),
        ofNat_eq_of_mod_eq a (by omega), ofNat_eq_of_mod_eq b (by omega)]
  | case4 a b c rest ih =>
      have ha := a.toNat_lt
      have hb := b.toNat_lt
      have hc := c.toNat_lt
      rw [encode, decode?_group (by omega) (by omega) (by omega) (by omega) ih,
        ofNat_eq_of_mod_eq a (by omega), ofNat_eq_of_mod_eq b (by omega),
        ofNat_eq_of_mod_eq c (by omega)]

theorem forall_mem_encode (bytes : List UInt8) : ∀ c ∈ encode bytes, IsWritten c := by
  induction bytes using encode.induct with
  | case1 => exact List.forall_mem_nil _
  | case2 a =>
      have ha := a.toNat_lt
      simp only [encode, List.forall_mem_cons]
      exact ⟨isWritten_digit (by omega), isWritten_digit (by omega), isWritten_equals,
        isWritten_equals, List.forall_mem_nil _⟩
  | case3 a b =>
      have ha := a.toNat_lt
      have hb := b.toNat_lt
      simp only [encode, List.forall_mem_cons]
      exact ⟨isWritten_digit (by omega), isWritten_digit (by omega), isWritten_digit (by omega),
        isWritten_equals, List.forall_mem_nil _⟩
  | case4 a b c rest ih =>
      have ha := a.toNat_lt
      have hb := b.toNat_lt
      have hc := c.toNat_lt
      simp only [encode, List.forall_mem_cons]
      exact ⟨isWritten_digit (by omega), isWritten_digit (by omega), isWritten_digit (by omega),
        isWritten_digit (by omega), ih⟩

theorem encode_ne_nil {bytes : List UInt8} (h : bytes ≠ []) : encode bytes ≠ [] := by
  intro hnil
  have hdecode := decode?_encode bytes
  rw [hnil] at hdecode
  exact h (Option.some.inj hdecode).symm

end Targeting.Base64
