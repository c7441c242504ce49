/-
# Lines and the blanks around them

A text is read as its lines, and a line mostly as what is left of it without the blanks around
it. Here is what the one and the other do to a text that is put together of known parts, and
that a text written as bytes is read back.
-/

import Mathlib.Data.List.DropRight
import Mathlib.Data.List.TakeWhile
import Mathlib.Tactic
import Targeting.Text.Blank
import Targeting.Text.Split

namespace Targeting

/-! ## Trimming -/

namespace Blank

variable {text before after : List Char} {c : Char}

/-- A text consists of blanks, or it has a character that is none. -/
theorem forall_or_exists (text : List Char) : (∀ b ∈ text, isUnicode b) ∨
    ∃ before c after, isUnicode c = false ∧ text = before ++ c :: after := by
  by_cases htext : ∀ b ∈ text, isUnicode b
  · exact .inl htext
  · push Not at htext
    obtain ⟨c, hmem, hc⟩ := htext
    obtain ⟨before, after, hsplit⟩ := List.mem_iff_append.1 hmem
    exact .inr ⟨before, c, after, by simpa using hc, hsplit⟩

theorem trimStart_append_of_forall (hbefore : ∀ b ∈ before, isUnicode b) :
    trimStart (before ++ text) = trimStart text :=
  List.dropWhile_append_of_pos hbefore

theorem trimEnd_append_of_forall (hafter : ∀ b ∈ after, isUnicode b) :
    trimEnd (text ++ after) = trimEnd text := by
  rw [trimEnd, List.reverse_append, List.dropWhile_append_of_pos, trimEnd]
  exact fun b hb => hafter b (List.mem_reverse.1 hb)

theorem trimStart_append_cons (hc : isUnicode c = false) :
    trimStart (before ++ c :: after) = trimStart before ++ c :: after := by
  have hstop : (c :: after).dropWhile isUnicode = c :: after :=
    List.dropWhile_cons_of_neg (by simp [hc])
  rw [trimStart, List.dropWhile_append, hstop, trimStart]
  split
  case isTrue hempty => rw [List.isEmpty_iff.1 hempty, List.nil_append]
  case isFalse => rfl

theorem trimEnd_append_cons (hc : isUnicode c = false) :
    trimEnd (before ++ c :: after) = before ++ c :: trimEnd after := by
  have hreverse : (before ++ c :: after).reverse = after.reverse ++ c :: before.reverse := by simp
  rw [trimEnd, hreverse, ← trimStart, trimStart_append_cons hc]
  simp [trimStart, trimEnd]

/-- Trimming works on the two sides of any character that is no blank. -/
theorem trim_append_cons (hc : isUnicode c = false) :
    trim (before ++ c :: after) = trimStart before ++ c :: trimEnd after := by
  rw [trim, trimStart_append_cons hc, trimEnd_append_cons hc]

theorem trim_eq_nil (htext : ∀ b ∈ text, isUnicode b) : trim text = [] := by
  rw [trim, ← text.append_nil, trimStart_append_of_forall htext]
  rfl

theorem trimStart_eq_self (htext : ∀ b ∈ text, isUnicode b = false) : trimStart text = text := by
  rw [trimStart, List.dropWhile_eq_self_iff]
  exact fun hpos => by simp [htext]

theorem trimEnd_eq_self (htext : ∀ b ∈ text, isUnicode b = false) : trimEnd text = text := by
  change text.rdropWhile isUnicode = text
  rw [List.rdropWhile_eq_self_iff]
  exact fun hne => by simp [htext]

theorem trim_eq_self (htext : ∀ b ∈ text, isUnicode b = false) : trim text = text := by
  rw [trim, trimStart_eq_self htext, trimEnd_eq_self htext]

/-- Blanks that are added around a text do not matter. -/
theorem trim_pad (hbefore : ∀ b ∈ before, isUnicode b) (hafter : ∀ b ∈ after, isUnicode b) :
    trim (before ++ text ++ after) = trim text := by
  obtain htext | ⟨first, c, last, hc, rfl⟩ := forall_or_exists text
  · rw [trim_eq_nil htext, trim_eq_nil]
    simp only [List.forall_mem_append]
    exact ⟨⟨hbefore, htext⟩, hafter⟩
  · rw [trim_append_cons hc, ← List.append_assoc before, List.append_assoc (before ++ first),
      List.cons_append, trim_append_cons hc, trimStart_append_of_forall hbefore,
      trimEnd_append_of_forall hafter]

theorem trim_trimEnd : trim (trimEnd text) = trim text := by
  obtain htext | ⟨first, c, last, hc, rfl⟩ := forall_or_exists text
  · rw [← text.nil_append, trimEnd_append_of_forall htext, List.nil_append, trim_eq_nil htext]
    rfl
  · have hidem : trimEnd (trimEnd last) = trimEnd last := List.rdropWhile_idempotent _ _
    rw [trimEnd_append_cons hc, trim_append_cons hc, trim_append_cons hc, hidem]

theorem length_trim_le (text : List Char) : (trim text).length ≤ text.length := by
  have hend : (trimEnd (trimStart text)).length ≤ (trimStart text).length := by
    simpa [trimEnd] using List.length_dropWhile_le isUnicode (trimStart text).reverse
  exact hend.trans (List.length_dropWhile_le _ _)

/-- A text without blanks around it ends in no blank. -/
theorem getLast?_of_trim_eq (htext : trim text = text) (hc : text.getLast? = some c) :
    isUnicode c = false := by
  obtain ⟨shorter, rfl⟩ := List.getLast?_eq_some_iff.1 hc
  by_contra hblank
  rw [Bool.not_eq_false] at hblank
  have hpad : trim ([] ++ shorter ++ [c]) = trim shorter :=
    trim_pad (List.forall_mem_nil _) (by simpa using hblank)
  have hlength := length_trim_le shorter
  rw [← hpad, List.nil_append, htext, List.length_append, List.length_singleton] at hlength
  exact absurd hlength (Nat.not_succ_le_self _)

end Blank

/-! ## Cutting -/

namespace Split

variable {separator : Char} {part rest line : List Char}

theorem once_append (hpart : separator ∉ part) :
    once separator (part ++ separator :: rest) = some (part, rest) := by
  induction part with
  | nil => simp [once]
  | cons c part ih =>
      rw [List.mem_cons, not_or] at hpart
      rw [List.cons_append, once, if_neg (Ne.symm hpart.1), ih hpart.2]
      rfl

theorem once_eq_none (hpart : separator ∉ part) : once separator part = none := by
  induction part with
  | nil => rfl
  | cons c part ih =>
      rw [List.mem_cons, not_or] at hpart
      rw [once, if_neg (Ne.symm hpart.1), ih hpart.2]
      rfl

theorem on_ne_nil (text : List Char) : on separator text ≠ [] := by
  cases text with
  | nil => exact List.cons_ne_nil _ _
  | cons c rest =>
      rw [on]
      split
      · exact List.cons_ne_nil _ _
      · split <;> exact List.cons_ne_nil _ _

theorem on_eq_singleton (hpart : separator ∉ part) : on separator part = [part] := by
  induction part with
  | nil => rfl
  | cons c part ih =>
      rw [List.mem_cons, not_or] at hpart
      rw [on, if_neg (Ne.symm hpart.1), ih hpart.2]

theorem on_append (hpart : separator ∉ part) :
    on separator (part ++ separator :: rest) = part :: on separator rest := by
  induction part with
  | nil => simp [on]
  | cons c part ih =>
      rw [List.mem_cons, not_or] at hpart
      rw [List.cons_append, on, if_neg (Ne.symm hpart.1), ih hpart.2]

theorem afterStart?_eq_some_iff {start text : List Char} :
    afterStart? start text = some rest ↔ text = start ++ rest := by
  induction start generalizing text with
  | nil => simp [afterStart?, eq_comm]
  | cons s start ih =>
      cases text with
      | nil => simp [afterStart?]
      | cons c text =>
          rw [afterStart?]
          split
          case isTrue heq => simp [ih, heq]
          case isFalse hne => simp [Ne.symm hne]

/-! ## Lines -/

/-- A line without the carriage return that belongs to its end. -/
def withoutReturn (line : List Char) : List Char :=
  if line.getLast? = some '\r' then line.dropLast else line

theorem trim_withoutReturn (line : List Char) :
    Blank.trim (withoutReturn line) = Blank.trim line := by
  rw [withoutReturn]
  split
  case isTrue hreturn =>
    obtain ⟨shorter, rfl⟩ := List.getLast?_eq_some_iff.1 hreturn
    have hpad : Blank.trim ([] ++ shorter ++ ['\r']) = Blank.trim shorter :=
      Blank.trim_pad (List.forall_mem_nil _) (List.forall_mem_singleton.2 (by decide))
    rw [List.dropLast_concat, ← hpad, List.nil_append]
  case isFalse => rfl

theorem lines_append (hline : '\n' ∉ line) :
    lines (line ++ '\n' :: rest) = withoutReturn line :: lines rest := by
  obtain ⟨first, others, hrest⟩ : ∃ first others, on '\n' rest = first :: others :=
    List.exists_cons_of_ne_nil (on_ne_nil rest)
  rw [lines, on_append hline, lines, hrest]
  simp only [List.dropLast_cons_cons, List.map_cons, List.getLast?_cons_cons, withoutReturn]
  split <;> simp

/-- Lines that are written one after the other are read as they are. -/
theorem lines_flatMap {written : List (List Char)}
    (h : ∀ line ∈ written, '\n' ∉ line ∧ line.getLast? ≠ some '\r') :
    lines (written.flatMap fun line => line ++ ['\n']) = written := by
  induction written with
  | nil => rfl
  | cons line written ih =>
      rw [List.forall_mem_cons] at h
      rw [List.flatMap_cons, List.append_assoc, List.singleton_append, lines_append h.1.1, ih h.2,
        withoutReturn, if_neg h.1.2]

theorem lines_eq_of_not_mem (hline : '\n' ∉ line) :
    lines line = if line.isEmpty then [] else [line] := by
  rw [lines, on_eq_singleton hline]
  cases line <;> rfl

end Split

/-! ## Bytes -/

theorem byteArray_toList_loop (bytes : ByteArray) (i : Nat) (found : List UInt8) :
    ByteArray.toList.loop bytes i found = found.reverse ++ bytes.data.toList.drop i := by
  induction i, found using ByteArray.toList.loop.induct bytes with
  | case1 i found hlt ih =>
      have hlength : i < bytes.data.toList.length := by simpa using hlt
      have hget : bytes.get! i = bytes.data.toList[i] := by
        simp only [ByteArray.get!, Array.getElem_toList]
        exact getElem!_pos bytes.data i hlt
      rw [ByteArray.toList.loop, if_pos hlt, ih, List.drop_eq_getElem_cons hlength, hget]
      simp
  | case2 i found hge =>
      have hlength : bytes.data.toList.length ≤ i := by simpa using hge
      rw [ByteArray.toList.loop, if_neg hge, List.drop_eq_nil_of_le hlength, List.append_nil]

theorem toUTF8_toList (text : String) : text.toUTF8.toList = text.toUTF8.data.toList := by
  rw [ByteArray.toList, byteArray_toList_loop]
  rfl

theorem fromUTF8?_toUTF8 (text : String) :
    String.fromUTF8? ⟨text.toUTF8.toList.toArray⟩ = some text := by
  rw [toUTF8_toList, Array.toArray_toList, String.toUTF8_eq_toByteArray, String.fromUTF8?,
    dif_pos text.isValidUTF8]
  rfl

/-- A text is known by its bytes. -/
theorem eq_of_toUTF8_toList_eq {text other : String}
    (h : text.toUTF8.toList = other.toUTF8.toList) : text = other := by
  have hread := fromUTF8?_toUTF8 text
  rw [h, fromUTF8?_toUTF8] at hread
  exact (Option.some.inj hread).symm

end Targeting
