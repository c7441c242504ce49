/-
# Quoted texts are read back

A text in its JSON form is read as that text. Its characters are read one by one. One that is
escaped comes back as a byte or as a code unit, which is never half of a pair, and any other one as
its bytes, none of which is a quote, a backslash or a control character.
-/

import Targeting.Json.Record
import Targeting.Proofs.Text.Lines

namespace Targeting

/-! ## The bytes of a text -/

theorem toUTF8_toList_ofList (chars : List Char) :
    (String.ofList chars).toUTF8.toList = chars.flatMap String.utf8EncodeChar := by
  rw [toUTF8_toList, String.toUTF8_eq_toByteArray, String.toByteArray_ofList, List.utf8Encode,
    List.data_toByteArray]

theorem toUTF8_toList_eq (text : String) :
    text.toUTF8.toList = text.toList.flatMap String.utf8EncodeChar := by
  rw [← toUTF8_toList_ofList, String.ofList_toList]

namespace Json.Written

namespace Reader

open Text.Quoted (hex jsonChar)
open String (utf8EncodeChar)

/-! ## One character -/

/-- Bytes that are read as the units of a character, whatever follows them. -/
def Reads (bytes : List UInt8) (c : Char) : Prop :=
  ∃ found : List Unit,
    (∀ more, joined (found ++ more) = (joined more).map (utf8EncodeChar c ++ ·)) ∧
      ∀ rest, units (bytes ++ rest) =
        (units rest).map fun (more, rest) => (found ++ more, rest)

/-- A letter after a backslash. -/
theorem reads_letter {letter b : UInt8} {c : Char} (hletter : escaped? letter = some b)
    (hc : utf8EncodeChar c = [b]) : Reads [92, letter] c := by
  refine ⟨[.byte b], fun more => by simp [joined, hc], fun rest => ?_⟩
  have hcode : letter ≠ 117 := by
    rintro rfl
    cases hletter
  rw [List.cons_append, List.singleton_append,
    units.eq_4 letter rest fun _ _ _ _ _ hu _ => hcode hu, hletter]
  cases units rest <;> rfl

theorem utf8_toNat (c : Char) : utf8 c.toNat = utf8EncodeChar c := by
  rw [utf8, Char.ofNat_toNat, toUTF8_toList_eq, String.toList_singleton, List.flatMap_singleton]

/-- A code unit that is no half of a pair stands for itself. -/
theorem joined_code {n : Nat} (h : n < 0xD800) (more : List Unit) :
    joined (.code n :: more) = (joined more).map (utf8 n ++ ·) := by
  rw [joined.eq_def]
  simp only [if_neg (show ¬ (0xD800 ≤ n ∧ n < 0xDC00) by omega),
    if_neg (show ¬ (0xDC00 ≤ n ∧ n < 0xE000) by omega)]

/-- Hexadecimal digits of a control character, as they are written. -/
theorem hex_of_control : ∀ n < 32, List.replicate (4 - (hex n).length) '0' ++ hex n =
    ['0', '0', Nat.digitChar (n / 16), Nat.digitChar (n % 16)] := by
  decide

theorem hexValue?_digitChar : ∀ d < 16, ∃ b, utf8EncodeChar (Nat.digitChar d) = [b] ∧
    hexValue? b = some d := by
  intro d hd
  refine ⟨UInt8.ofNat (Nat.digitChar d).toNat, ?_⟩
  revert d
  decide

/-- The number of a control character after a backslash. -/
theorem reads_code {c : Char} (hcontrol : c.toNat < 32) :
    Reads ((['\\', 'u'] ++ (List.replicate (4 - (hex c.toNat).length) '0' ++
      hex c.toNat)).flatMap utf8EncodeChar) c := by
  obtain ⟨high, hhigh, hhighValue⟩ := hexValue?_digitChar (c.toNat / 16) (by omega)
  obtain ⟨low, hlow, hlowValue⟩ := hexValue?_digitChar (c.toNat % 16) (by omega)
  have hbytes : (['\\', 'u'] ++ (List.replicate (4 - (hex c.toNat).length) '0' ++
      hex c.toNat)).flatMap utf8EncodeChar = [92, 117, 48, 48, high, low] := by
    rw [hex_of_control _ hcontrol]
    simp only [List.cons_append, List.nil_append, List.flatMap_cons, hhigh, hlow]
    rfl
  have hnumber : 16 * (c.toNat / 16) + c.toNat % 16 = c.toNat := Nat.div_add_mod ..
  refine ⟨[.code c.toNat], fun more => ?_, fun rest => ?_⟩
  · rw [List.singleton_append, joined_code (by omega), utf8_toNat]
  · have hzero : hexValue? 48 = some 0 := rfl
    rw [hbytes]
    cases hrest : units rest <;>
      simp [units, hzero, hhighValue, hlowValue, hnumber, hrest]

/-- A byte that stands for itself: no quote, no backslash and no control character. -/
def IsPlain (b : UInt8) : Prop := 32 ≤ b.toNat ∧ b.toNat ≠ 34 ∧ b.toNat ≠ 92

theorem units_plain {b : UInt8} (h : IsPlain b) (rest : List UInt8) :
    units (b :: rest) = (units rest).map fun (more, rest) => (.byte b :: more, rest) := by
  obtain ⟨hcontrol, hquote, hslash⟩ := h
  have hbyte : ¬ (b < 32 ∨ b = 92) := by
    rintro (hlt | rfl)
    · exact absurd (UInt8.lt_iff_toNat_lt.1 hlt) (Nat.not_lt.2 hcontrol)
    · exact hslash rfl
  rw [units.eq_def]
  split
  case h_5 hrest =>
      cases hrest
      rw [if_neg hbyte]
      cases units rest <;> rfl
  all_goals simp_all

theorem units_append_of_plain {bytes : List UInt8} (h : ∀ b ∈ bytes, IsPlain b)
    (rest : List UInt8) : units (bytes ++ rest) =
      (units rest).map fun (more, rest) => (bytes.map .byte ++ more, rest) := by
  induction bytes with
  | nil => cases hrest : units rest <;> simp [hrest]
  | cons b bytes ih =>
      rw [List.cons_append, units_plain (h b List.mem_cons_self),
        ih fun b hb => h b (List.mem_cons_of_mem _ hb)]
      cases units rest <;> rfl

theorem joined_bytes_append (bytes : List UInt8) (more : List Unit) :
    joined (bytes.map .byte ++ more) = (joined more).map (bytes ++ ·) := by
  induction bytes with
  | nil => simp
  | cons b bytes ih =>
      rw [List.map_cons, List.cons_append, joined, ih]
      cases joined more <;> rfl

/-- A byte beyond those of ASCII is plain. -/
theorem isPlain_of_high {n : Nat} (hlow : 128 ≤ n) (hhigh : n < 256) : IsPlain (UInt8.ofNat n) := by
  rw [IsPlain, UInt8.toNat_ofNat', Nat.mod_eq_of_lt hhigh]
  omega

/-- The bytes of a character that is not escaped are plain. -/
theorem isPlain_of_mem_utf8EncodeChar {c : Char} (hcontrol : 32 ≤ c.toNat) (hquote : c.toNat ≠ 34)
    (hslash : c.toNat ≠ 92) {b : UInt8} (hb : b ∈ utf8EncodeChar c) : IsPlain b := by
  simp only [utf8EncodeChar, Char.toNat_val] at hb
  split at hb
  case isTrue hascii =>
    obtain rfl := List.mem_singleton.1 hb
    rw [IsPlain, UInt8.toNat_ofNat', Nat.mod_eq_of_lt (by omega)]
    exact ⟨hcontrol, hquote, hslash⟩
  case isFalse =>
    -- A character beyond ASCII only has bytes beyond it, be they two, three or four.
    split at hb
    case isTrue =>
      simp only [List.mem_cons, List.not_mem_nil, or_false] at hb
      obtain rfl | rfl := hb <;> exact isPlain_of_high (by omega) (by omega)
    case isFalse =>
      split at hb
      case isTrue =>
        simp only [List.mem_cons, List.not_mem_nil, or_false] at hb
        obtain rfl | rfl | rfl := hb <;> exact isPlain_of_high (by omega) (by omega)
      case isFalse =>
        simp only [List.mem_cons, List.not_mem_nil, or_false] at hb
        obtain rfl | rfl | rfl | rfl := hb <;> exact isPlain_of_high (by omega) (by omega)

theorem reads_plain {c : Char} (hcontrol : 32 ≤ c.toNat) (hquote : c.toNat ≠ 34)
    (hslash : c.toNat ≠ 92) : Reads (utf8EncodeChar c) c :=
  ⟨(utf8EncodeChar c).map .byte, joined_bytes_append _,
    units_append_of_plain fun _ => isPlain_of_mem_utf8EncodeChar hcontrol hquote hslash⟩

theorem reads_jsonChar (c : Char) : Reads ((jsonChar c).flatMap utf8EncodeChar) c := by
  unfold jsonChar
  split
  case h_8 hquote hslash _ _ _ _ _ =>
    split
    case isTrue hcontrol => exact reads_code hcontrol
    case isFalse hcontrol =>
      rw [List.flatMap_singleton]
      exact reads_plain (by omega) (fun h => hquote (Char.toNat_inj.1 h))
        fun h => hslash (Char.toNat_inj.1 h)
  all_goals exact reads_letter rfl rfl

/-! ## Texts -/

theorem units_jsonChars (chars : List Char) (rest : List UInt8) :
    ∃ found, joined found = some (chars.flatMap utf8EncodeChar) ∧
      units ((chars.flatMap jsonChar).flatMap utf8EncodeChar ++ 34 :: rest) =
        some (found, rest) := by
  induction chars with
  | nil => exact ⟨[], rfl, rfl⟩
  | cons c chars ih =>
      obtain ⟨more, hmore, hunits⟩ := ih
      obtain ⟨found, hjoined, hread⟩ := reads_jsonChar c
      refine ⟨found ++ more, ?_, ?_⟩
      · rw [hjoined, hmore]
        rfl
      · rw [List.flatMap_cons, List.flatMap_append, List.append_assoc, hread, hunits]
        rfl

theorem textOf_eq {found : List Unit} {text : String}
    (h : joined found = some (text.toList.flatMap utf8EncodeChar)) : textOf found = some text := by
  rw [textOf, h, ← toUTF8_toList_eq, Option.bind_some, fromUTF8?_toUTF8]

end Reader

/-- **A quoted text is read as that text.** -/
theorem parse?_json (text : String) :
    parse? (Text.Quoted.json text).toUTF8.toList = some (.text (some text)) := by
  obtain ⟨found, hjoined, hunits⟩ := Reader.units_jsonChars text.toList []
  have hbytes : (Text.Quoted.json text).toUTF8.toList =
      34 :: ((text.toList.flatMap Text.Quoted.jsonChar).flatMap String.utf8EncodeChar ++ [34]) := by
    rw [Text.Quoted.json, toUTF8_toList_ofList, List.flatMap_append, List.flatMap_cons]
    rfl
  rw [parse?, hbytes, Reader.value]
  simp [Reader.skipBlanks, hunits, Reader.textOf_eq hjoined]

end Json.Written

end Targeting
