/-
# The lexer on bytes

`tokenize` takes a source for a list of characters. A lexer that works in place has a cursor
instead, an index into the bytes of the source: it looks at single bytes and at runs of bytes, it
cuts parts out of the source, and it moves the cursor on. Each of these can go wrong. There may be
no byte at the index, a part may start or end inside a character, and a cursor that stays where it
is never comes to the end. Here this lexer is written down with all of these faults, and
`tokenize_eq` says that it meets none of them and finds what `tokenize` finds.

The cursor always stands in front of a character, which is said by `At`. What holds of one
operation under `At` follows from two facts about the encoding: a character of ASCII is a single
byte, and no other character has a byte that looks like one.
-/

import Targeting.Proofs.Condition.Spelling
import Targeting.Proofs.Json.Quoted

namespace Targeting.Condition

open String (utf8Len utf8EncodeChar)

/-- What can go wrong in reading bytes in place. -/
inductive Fault where
  /-- There is no byte at an index. -/
  | byte (index : Nat)
  /-- A part ends before it starts, or past the end, or an end of it is inside a character. -/
  | part (start stop : Nat)
  /-- The cursor does not move on. -/
  | stuck (index : Nat)
  deriving Repr, DecidableEq

/-- Why the lexer on bytes stops short: a fault of its own, or something wrong with the source. -/
inductive Halt where
  | fault (fault : Fault)
  | refused (error : SyntaxError)
  deriving Repr, DecidableEq

namespace Cursor

open Lexer

/-! ## Reading in place -/

/-- The byte at an index, as the character with its number. -/
def byteAt (source : String) (index : Nat) : Except Halt Char :=
  match source.toUTF8.toList[index]? with
  | some b => .ok (Char.ofUInt8 b)
  | none => .error (.fault (.byte index))

/-- Whether there is a byte of some kind at an index. -/
def holdsAt (source : String) (kind : Char → Bool) (index : Nat) : Except Halt Bool :=
  if index < source.utf8ByteSize then do
    let c ← byteAt source index
    pure (kind c)
  else pure false

/-- The part of a source between two indices. -/
def part (source : String) (start stop : Nat) : Except Halt (List Char) :=
  if start ≤ stop ∧ String.Pos.Raw.IsValid source ⟨start⟩ ∧ String.Pos.Raw.IsValid source ⟨stop⟩ then
    .ok (String.Pos.Raw.extract source ⟨start⟩ ⟨stop⟩).toList
  else .error (.fault (.part start stop))

/-- The end of the run of bytes of some kind that starts at an index. -/
def runEnd (source : String) (kind : Char → Bool) (start : Nat) : Except Halt Nat :=
  if start ≤ source.utf8ByteSize then
    .ok (start + ((source.toUTF8.toList.drop start).takeWhile fun b => kind (Char.ofUInt8 b)).length)
  else .error (.fault (.part start source.utf8ByteSize))

/-- Characters with their byte offsets. -/
def charIndices : (offset : Nat) → List Char → List (Nat × Char)
  | _, [] => []
  | offset, c :: rest => (offset, c) :: charIndices (offset + c.utf8Size) rest

/-- The characters of a text literal up to its closing quote, and the offset after the quote. -/
def quotedText (quote : Char) : List (Nat × Char) → Option (List Char × Nat)
  | [] => none
  | [(offset, c)] => if c = quote then some ([], offset + c.utf8Size) else none
  | (offset, c) :: (offset', escaped) :: rest =>
    if c = quote then some ([], offset + c.utf8Size)
    else if c = '\\' then
      (quotedText quote rest).map fun (value, stop) => (unescape escaped :: value, stop)
    else (quotedText quote ((offset', escaped) :: rest)).map fun (value, stop) => (c :: value, stop)

/-- The text literal at an index, and the index after it. -/
def text (source : String) (start : Nat) : Except Halt (TokenKind × Nat) := do
  let rest ← part source start source.utf8ByteSize
  match charIndices 0 rest with
  | [] => .error (.refused ⟨start, .expected "string"⟩)
  | (_, quote) :: rest =>
    match quotedText quote rest with
    | some (value, stop) => .ok (.text (String.ofList value), start + stop)
    | none => .error (.refused ⟨start, .unterminatedText⟩)

/-- The end of a numeral with the fraction that starts at an index, if there is one. -/
def fractionEnd (source : String) (start : Nat) : Except Halt Nat :=
  if start + 1 < source.utf8ByteSize then do
    let point ← byteAt source start
    if point = '.' then
      let digit ← byteAt source (start + 1)
      if digit.isDigit then runEnd source continuesDigits (start + 1) else pure start
    else pure start
  else pure start

/-- The end of a numeral with the exponent that starts at an index, if there is one. -/
def exponentEnd (source : String) (start : Nat) : Except Halt Nat := do
  if ← holdsAt source (fun c => c = 'e' || c = 'E') start then
    let signed ← holdsAt source (fun c => c = '+' || c = '-') (start + 1)
    let digits := if signed then start + 2 else start + 1
    if ← holdsAt source Char.isDigit digits then runEnd source continuesDigits digits else pure start
  else pure start

/-- The numeral at an index, and the index after it. -/
def numeral (source : String) (start : Nat) : Except Halt (TokenKind × Nat) := do
  let integerStop ← runEnd source continuesDigits start
  let fractionStop ← fractionEnd source integerStop
  let stop ← exponentEnd source fractionStop
  let digits ← part source start stop
  match number digits with
  | .ok (kind, _) => .ok (kind, stop)
  | .error problem => .error (.refused ⟨start, problem⟩)

/-- The name at an index, and the index after it. -/
def word (source : String) (start : Nat) : Except Halt (TokenKind × Nat) := do
  let stop ← runEnd source continuesWord start
  let name ← part source start stop
  pure (.word (String.ofList name), stop)

/-- The question mark or the operator at an index, and the index after it. -/
def symbol (source : String) (start : Nat) : Except Halt (TokenKind × Nat) := do
  let rest ← part source start source.utf8ByteSize
  if ['?'].isPrefixOf rest ∧ ¬ ['?', '?'].isPrefixOf rest then pure (.question, start + 1)
  else
    match operators.find? fun (symbol, _) => symbol.isPrefixOf rest with
    | some (symbol, op) => .ok (.operator op, start + utf8Len symbol)
    | none => .error (.refused ⟨start, .unexpectedCharacter (rest.headD '\x00')⟩)

/-- The token at an index, which starts with a byte, and the index after it. -/
def token (source : String) (start : Nat) (first : Char) : Except Halt (TokenKind × Nat) :=
  match first with
  | '(' => .ok (.leftParen, start + 1)
  | ')' => .ok (.rightParen, start + 1)
  | '[' => .ok (.leftBracket, start + 1)
  | ']' => .ok (.rightBracket, start + 1)
  | ',' => .ok (.comma, start + 1)
  | ':' => .ok (.colon, start + 1)
  | first =>
    if first = '"' ∨ first = '\'' then text source start
    else if first.isDigit then numeral source start
    else if startsWord first then word source start
    else symbol source start

/-- What the lexer does at an index: it passes over a blank or finds a token, and moves on. -/
def step (source : String) (index : Nat) : Except Halt (Option Token × Nat) := do
  let first ← byteAt source index
  if Blank.isAscii first then pure (none, index + 1)
  else
    let (kind, stop) ← token source index first
    pure (some ⟨kind, index⟩, stop)

/-- The tokens from an index on. -/
def scan (source : String) (index : Nat) : Except Halt (List Token) :=
  if index < source.utf8ByteSize then
    match step source index with
    | .error halt => .error halt
    | .ok (found, next) =>
      if index < next then
        match scan source next with
        | .error halt => .error halt
        | .ok tokens => .ok (found.toList ++ tokens)
      else .error (.fault (.stuck index))
  else .ok [⟨.stop, source.utf8ByteSize⟩]
termination_by source.utf8ByteSize - index

/-- The tokens of a source. -/
def tokenize (source : String) : Except Halt (List Token) := scan source 0

/-! ## Encoded characters -/

/-- The first byte of a character, as the character with its number. -/
def lead (c : Char) : Char := Char.ofUInt8 ((utf8EncodeChar c).headD 0)

/-- A kind of characters that are all ASCII. -/
def IsAscii (kind : Char → Bool) : Prop := ∀ c, kind c → c.toNat < 128

theorem utf8Size_of_ascii {c : Char} (hc : c.toNat < 128) : c.utf8Size = 1 :=
  Char.utf8Size_eq_one_iff.2 (UInt32.le_iff_toNat_le.2 (Nat.le_of_lt_succ hc))

theorem utf8EncodeChar_of_ascii {c : Char} (hc : c.toNat < 128) :
    utf8EncodeChar c = [c.val.toUInt8] ∧ Char.ofUInt8 c.val.toUInt8 = c := by
  refine ⟨String.utf8EncodeChar_eq_singleton (utf8Size_of_ascii hc), Char.ext ?_⟩
  have hval : c.val.toNat < 128 := hc
  apply UInt32.toNat.inj
  change c.val.toUInt8.toUInt32.toNat = c.val.toNat
  rw [UInt8.toNat_toUInt32, UInt32.toNat_toUInt8]
  omega

theorem toNat_ofUInt8 (b : UInt8) : (Char.ofUInt8 b).toNat = b.toNat :=
  UInt8.toNat_toUInt32 b

theorem lead_of_ascii {c : Char} (hc : c.toNat < 128) : lead c = c := by
  obtain ⟨hencode, hchar⟩ := utf8EncodeChar_of_ascii hc
  rw [lead, hencode]
  exact hchar

theorem le_lead {c : Char} (hc : 128 ≤ c.toNat) : 128 ≤ (lead c).toNat := by
  have hval : 128 ≤ c.val.toNat := hc
  rw [lead, toNat_ofUInt8, utf8EncodeChar.eq_def]
  dsimp only
  split_ifs
  · omega
  all_goals
    simp only [List.headD_cons, UInt8.toNat_ofNat']
    omega

namespace IsAscii

theorem eq {d : Char} (hd : d.toNat < 128) : IsAscii fun c => c = d := by
  intro c hc
  rwa [of_decide_eq_true hc]

theorem or {kind kind' : Char → Bool} (hkind : IsAscii kind) (hkind' : IsAscii kind') :
    IsAscii fun c => kind c || kind' c := by
  intro c hc
  rcases Bool.or_eq_true_iff.1 hc with hc | hc
  · exact hkind c hc
  · exact hkind' c hc

end IsAscii

theorem isAscii_isDigit : IsAscii Char.isDigit := by
  intro c hc
  have hle : c.val ≤ 57 := by simpa using (Bool.and_eq_true_iff.1 hc).2
  exact Nat.lt_of_le_of_lt (UInt32.le_iff_toNat_le.1 hle) (by decide)

theorem isAscii_isAlpha : IsAscii Char.isAlpha := by
  intro c hc
  have hle : c.val ≤ 122 := by
    simp only [Char.isAlpha, Char.isUpper, Char.isLower, Bool.or_eq_true, Bool.and_eq_true,
      decide_eq_true_eq] at hc
    grind
  exact Nat.lt_of_le_of_lt (UInt32.le_iff_toNat_le.1 hle) (by decide)

theorem isAscii_continuesDigits : IsAscii continuesDigits :=
  isAscii_isDigit.or (.eq (by decide))

theorem isAscii_startsWord : IsAscii startsWord :=
  isAscii_isAlpha.or (.eq (by decide))

theorem isAscii_continuesWord : IsAscii continuesWord :=
  (isAscii_isAlpha.or isAscii_isDigit).or (.eq (by decide))

theorem isAscii_blank : IsAscii Blank.isAscii :=
  (((IsAscii.eq (by decide)).or (.eq (by decide))).or (.eq (by decide))).or (.eq (by decide))
    |>.or (.eq (by decide))

/-- The first byte tells whether a character is of some kind of ASCII. -/
theorem IsAscii.lead_eq {kind : Char → Bool} (hkind : IsAscii kind) (c : Char) :
    kind (lead c) = kind c := by
  by_cases hc : c.toNat < 128
  · rw [lead_of_ascii hc]
  · have hno (d : Char) (hd : 128 ≤ d.toNat) : kind d = false := by
      by_contra htrue
      have := hkind d (by simpa using htrue)
      omega
    rw [hno c (by omega), hno _ (le_lead (by omega))]

theorem lead_eq_iff {c d : Char} (hd : d.toNat < 128) : lead c = d ↔ c = d := by
  simpa using (IsAscii.eq hd).lead_eq c

theorem length_flatMap_utf8EncodeChar (text : List Char) :
    (text.flatMap utf8EncodeChar).length = utf8Len text := by
  induction text with
  | nil => rfl
  | cons c rest ih =>
      rw [List.flatMap_cons, List.length_append, ih, String.length_utf8EncodeChar,
        String.utf8Len_cons, Nat.add_comm]

/-- The bytes of some kind of ASCII in front of a text are its characters of this kind. -/
theorem IsAscii.takeWhile_flatMap {kind : Char → Bool} (hkind : IsAscii kind) (rest : List Char) :
    ((rest.flatMap utf8EncodeChar).takeWhile fun b => kind (Char.ofUInt8 b)).length =
      utf8Len (rest.takeWhile kind) := by
  induction rest with
  | nil => rfl
  | cons c rest ih =>
      cases hc : kind c with
      | true =>
          obtain ⟨hencode, hchar⟩ := utf8EncodeChar_of_ascii (hkind c hc)
          have hsize := utf8Size_of_ascii (hkind c hc)
          rw [List.flatMap_cons, hencode, List.singleton_append, List.takeWhile_cons_of_pos,
            List.length_cons, ih, List.takeWhile_cons_of_pos hc, String.utf8Len_cons, hsize]
          rwa [hchar]
      | false =>
          obtain ⟨b, more, hencode⟩ := List.exists_cons_of_ne_nil (@String.utf8EncodeChar_ne_nil c)
          have hlead : kind (Char.ofUInt8 b) = false := by
            rw [← hc, ← hkind.lead_eq c, lead, hencode, List.headD_cons]
          rw [List.flatMap_cons, hencode, List.cons_append, List.takeWhile_cons_of_neg (by simp [hlead]),
            List.takeWhile_cons_of_neg (by simp [hc])]
          rfl

/-! ## In front of a character -/

/-- An index is in front of a text, with which the source ends. -/
def At (source : String) (index : Nat) (rest : List Char) : Prop :=
  ∃ before, source.toList = before ++ rest ∧ utf8Len before = index

section Reading

variable {source : String} {index : Nat} {rest : List Char}

theorem at_start (source : String) : At source 0 source.toList := ⟨[], rfl, rfl⟩

namespace At

theorem append {taken : List Char} (h : At source index (taken ++ rest)) :
    At source (index + utf8Len taken) rest := by
  obtain ⟨before, hsource, rfl⟩ := h
  exact ⟨before ++ taken, by rw [hsource, List.append_assoc], String.utf8Len_append _ _⟩

theorem drop (h : At source index rest) (width : Nat) :
    At source (index + utf8Len (rest.take width)) (rest.drop width) :=
  append (by rwa [List.take_append_drop])

theorem tail {c : Char} (h : At source index (c :: rest)) : At source (index + c.utf8Size) rest := by
  simpa using h.drop 1

theorem add_utf8Len (h : At source index rest) : index + utf8Len rest = source.utf8ByteSize := by
  obtain ⟨before, hsource, rfl⟩ := h
  rw [← String.utf8Len_toList, hsource, String.utf8Len_append]

theorem isValid (h : At source index rest) : String.Pos.Raw.IsValid source ⟨index⟩ := by
  obtain ⟨before, hsource, rfl⟩ := h
  refine String.Pos.Raw.isValid_iff_exists_append.2
    ⟨String.ofList before, String.ofList rest, ?_, ?_⟩
  · rw [← String.ofList_append, ← hsource, String.ofList_toList]
  · rw [String.rawEndPos_ofList]

theorem drop_toUTF8 (h : At source index rest) :
    source.toUTF8.toList.drop index = rest.flatMap utf8EncodeChar := by
  obtain ⟨before, hsource, rfl⟩ := h
  rw [toUTF8_toList_eq, hsource, List.flatMap_append,
    List.drop_left' (length_flatMap_utf8EncodeChar before)]

theorem byteAt_eq {c : Char} (h : At source index (c :: rest)) :
    byteAt source index = .ok (lead c) := by
  obtain ⟨b, more, hencode⟩ := List.exists_cons_of_ne_nil (@String.utf8EncodeChar_ne_nil c)
  have hbyte : source.toUTF8.toList[index]? = some b := by
    rw [← List.head?_drop, h.drop_toUTF8, List.flatMap_cons, hencode, List.cons_append,
      List.head?_cons]
  rw [byteAt, hbyte, lead, hencode, List.headD_cons]

theorem holdsAt_eq (h : At source index rest) {kind : Char → Bool} (hkind : IsAscii kind) :
    holdsAt source kind index = .ok (rest.head?.any kind) := by
  have hsize := h.add_utf8Len
  cases rest with
  | nil => exact if_neg (Nat.not_lt.2 hsize.ge)
  | cons c rest =>
      have hlt : index < source.utf8ByteSize := by
        have := c.utf8Size_pos
        rw [String.utf8Len_cons] at hsize
        omega
      rw [holdsAt, if_pos hlt, h.byteAt_eq]
      exact congrArg Except.ok (hkind.lead_eq c)

theorem part_eq {taken : List Char} (h : At source index (taken ++ rest)) :
    part source index (index + utf8Len taken) = .ok taken := by
  have hvalid := h.isValid
  have hvalid' := h.append.isValid
  obtain ⟨before, hsource, rfl⟩ := h
  have htext : source = String.ofList (before ++ taken ++ rest) := by
    rw [List.append_assoc, ← hsource, String.ofList_toList]
  rw [part, if_pos ⟨Nat.le_add_right _ _, hvalid, hvalid'⟩, htext, String.extract_of_valid,
    String.toList_ofList]

theorem part_eq_rest (h : At source index rest) :
    part source index source.utf8ByteSize = .ok rest := by
  rw [← h.add_utf8Len]
  exact part_eq (by rwa [List.append_nil])

theorem runEnd_eq (h : At source index rest) {kind : Char → Bool} (hkind : IsAscii kind) :
    runEnd source kind index = .ok (index + utf8Len (rest.takeWhile kind)) := by
  have hle : index ≤ source.utf8ByteSize := by
    have := h.add_utf8Len
    omega
  rw [runEnd, if_pos hle, h.drop_toUTF8, hkind.takeWhile_flatMap]

end At

/-- A token that is found in front of a text, with the index after it, or the refusal to read one
there. -/
def located (index : Nat) (text : List Char) : Lexeme → Except Halt (TokenKind × Nat)
  | .ok (kind, width) => .ok (kind, index + utf8Len (text.take (width + 1)))
  | .error problem => .error (.refused ⟨index, problem⟩)

/-! ## Text literals -/

theorem quotedText_charIndices (quote : Char) (rest : List Char) (offset : Nat) :
    quotedText quote (charIndices offset rest) =
      (textBody quote rest).map fun (value, width) => (value, offset + utf8Len (rest.take width)) := by
  fun_induction textBody quote rest generalizing offset with
  | case1 => rfl
  | case2 => simp [charIndices, quotedText]
  | case3 c hc => simp [charIndices, quotedText, hc]
  | case4 => simp [charIndices, quotedText]
  | case5 escaped rest hc ih =>
      rw [charIndices, charIndices, quotedText, if_neg hc, if_pos rfl, ih, Option.map_map,
        Option.map_map]
      refine congrArg (Option.map · _) (funext fun body => Prod.ext rfl ?_)
      simp only [Function.comp_apply, List.take_succ_cons, String.utf8Len_cons]
      omega
  | case6 c escaped rest hc hslash ih =>
      rw [charIndices, charIndices, quotedText, if_neg hc, if_neg hslash, ← charIndices, ih,
        Option.map_map, Option.map_map]
      refine congrArg (Option.map · _) (funext fun body => Prod.ext rfl ?_)
      simp only [Function.comp_apply, List.take_succ_cons, String.utf8Len_cons]
      omega

theorem At.text_eq {c : Char} (h : At source index (c :: rest)) :
    text source index = located index (c :: rest)
      (match textBody c rest with
        | some (value, width) => .ok (.text (String.ofList value), width)
        | none => .error .unterminatedText) := by
  rw [text, h.part_eq_rest]
  simp only [bind, Except.bind, charIndices, quotedText_charIndices]
  cases textBody c rest with
  | none => rfl
  | some body => simp [located, Nat.add_comm]

/-! ## Numerals -/

/-- Without its point there is no fraction. -/
theorem fractionPart_eq_nil {rest : List Char} (hpoint : rest.head? ≠ some '.') :
    fractionPart rest = [] := by
  unfold fractionPart
  split
  · exact absurd rfl hpoint
  · rfl

/-- After the point, a fraction is digits. -/
theorem fractionPart_point (digits : List Char) :
    fractionPart ('.' :: digits) =
      if digits.head?.any Char.isDigit then '.' :: digits.takeWhile continuesDigits else [] := by
  cases digits with
  | nil => rfl
  | cons digit more =>
      cases hdigit : digit.isDigit <;> simp [fractionPart, hdigit, continuesDigits]

/-- After the letter and a sign, an exponent is digits. -/
theorem exponentPart_signed {mark sign : Char} (hmark : mark = 'e' ∨ mark = 'E')
    (hsign : sign = '+' ∨ sign = '-') (digits : List Char) :
    exponentPart (mark :: sign :: digits) =
      if digits.head?.any Char.isDigit then mark :: sign :: digits.takeWhile continuesDigits
      else [] := by
  have hdigit : sign.isDigit = false := by rcases hsign with rfl | rfl <;> rfl
  cases digits with
  | nil => simp [exponentPart, hdigit]
  | cons digit more =>
      cases hmore : digit.isDigit <;>
        simp [exponentPart, hmark, hsign, hdigit, hmore, continuesDigits]

/-- After the letter without a sign, an exponent is digits. -/
theorem exponentPart_unsigned {mark : Char} (hmark : mark = 'e' ∨ mark = 'E') {digits : List Char}
    (hsign : ∀ c ∈ digits.head?, ¬ (c = '+' ∨ c = '-')) :
    exponentPart (mark :: digits) =
      if digits.head?.any Char.isDigit then mark :: digits.takeWhile continuesDigits else [] := by
  rcases digits with _ | ⟨digit, _ | ⟨next, more⟩⟩
  · rfl
  · cases hdigit : digit.isDigit <;> simp [exponentPart, hmark, hdigit, continuesDigits]
  · have hno := hsign digit rfl
    cases hdigit : digit.isDigit <;>
      simp [exponentPart, hmark, hno, hdigit, continuesDigits]

theorem isRun_takeWhile {text : List Char} (hdigit : text.head?.any Char.isDigit) :
    IsRun (text.takeWhile continuesDigits) := by
  obtain ⟨d, hd, hd'⟩ := (Option.any_eq_true _ _).1 hdigit
  obtain ⟨more, rfl⟩ := List.head?_eq_some_iff.1 hd
  refine ⟨⟨d, ?_, hd'⟩, fun c hc => List.mem_takeWhile_imp hc⟩
  simp [continuesDigits, hd']

/-- A fraction in front of a text is nothing, or a point and the digits after it. -/
theorem fractionPart_cases (rest : List Char) :
    fractionPart rest = [] ∨ ∃ digits, rest = '.' :: digits ∧ digits.head?.any Char.isDigit ∧
      fractionPart rest = '.' :: digits.takeWhile continuesDigits := by
  by_cases hpoint : rest.head? = some '.'
  case neg => exact .inl (fractionPart_eq_nil hpoint)
  obtain ⟨digits, rfl⟩ := List.head?_eq_some_iff.1 hpoint
  have hpart := fractionPart_point digits
  split_ifs at hpart with hdigit
  · exact .inr ⟨digits, rfl, hdigit, hpart⟩
  · exact .inl hpart

theorem fractionPart_isPrefix (rest : List Char) : fractionPart rest <+: rest := by
  obtain hnil | ⟨digits, rfl, -, hpart⟩ := fractionPart_cases rest
  · rw [hnil]
    exact List.nil_prefix
  · rw [hpart]
    exact List.cons_prefix_cons.2 ⟨rfl, List.takeWhile_prefix _⟩

theorem isFraction_fractionPart (rest : List Char) : IsFraction (fractionPart rest) := by
  obtain hnil | ⟨digits, rfl, hdigit, hpart⟩ := fractionPart_cases rest
  · rw [hnil]
    exact .none
  · rw [hpart]
    exact .digits (isRun_takeWhile hdigit)

/-- An exponent in front of a text is nothing, or a letter, perhaps a sign, and the digits after
it. -/
theorem exponentPart_cases (rest : List Char) :
    exponentPart rest = [] ∨ ∃ mark sign digits, rest = mark :: (sign ++ digits) ∧
      (mark = 'e' ∨ mark = 'E') ∧ sign ∈ [[], ['+'], ['-']] ∧ digits.head?.any Char.isDigit ∧
      exponentPart rest = mark :: (sign ++ digits.takeWhile continuesDigits) := by
  by_cases hmark : ∃ mark ∈ rest.head?, mark = 'e' ∨ mark = 'E'
  case neg => exact .inl (exponentPart_eq_nil fun c hc hc' => hmark ⟨c, hc, hc'⟩)
  obtain ⟨mark, hhead, hmark⟩ := hmark
  obtain ⟨tail, rfl⟩ := List.head?_eq_some_iff.1 hhead
  by_cases hsign : ∃ sign ∈ tail.head?, sign = '+' ∨ sign = '-'
  case pos =>
    obtain ⟨sign, hhead, hsign⟩ := hsign
    obtain ⟨digits, rfl⟩ := List.head?_eq_some_iff.1 hhead
    have hpart := exponentPart_signed hmark hsign digits
    split_ifs at hpart with hdigit
    · exact .inr ⟨mark, [sign], digits, rfl, hmark, by simpa using hsign, hdigit, hpart⟩
    · exact .inl hpart
  case neg =>
    have hpart := exponentPart_unsigned hmark fun c hc hc' => hsign ⟨c, hc, hc'⟩
    split_ifs at hpart with hdigit
    · exact .inr ⟨mark, [], tail, rfl, hmark, by simp, hdigit, hpart⟩
    · exact .inl hpart

theorem exponentPart_isPrefix (rest : List Char) : exponentPart rest <+: rest := by
  obtain hnil | ⟨mark, sign, digits, rfl, -, -, -, hpart⟩ := exponentPart_cases rest
  · rw [hnil]
    exact List.nil_prefix
  · rw [hpart, List.cons_prefix_cons, List.prefix_append_right_inj]
    exact ⟨rfl, List.takeWhile_prefix _⟩

theorem isExponent_exponentPart (rest : List Char) : IsExponent (exponentPart rest) := by
  obtain hnil | ⟨mark, sign, digits, rfl, hmark, hsign, hdigit, hpart⟩ := exponentPart_cases rest
  · rw [hnil]
    exact .none
  · rw [hpart]
    exact .digits hmark hsign (isRun_takeWhile hdigit)

theorem At.fractionEnd_eq (h : At source index rest) :
    fractionEnd source index = .ok (index + utf8Len (fractionPart rest)) := by
  have hsize := h.add_utf8Len
  by_cases hhead : rest.head? = some '.'
  case neg =>
    rw [fractionPart_eq_nil hhead, fractionEnd]
    split
    case isFalse => rfl
    case isTrue hlt =>
      cases rest with
      | nil => exact absurd hsize (Nat.ne_of_lt (Nat.lt_of_succ_lt hlt))
      | cons c more =>
          have hlead : lead c ≠ '.' := fun hpoint =>
            hhead (congrArg some ((lead_eq_iff (by decide)).1 hpoint))
          rw [h.byteAt_eq]
          exact if_neg hlead
  case pos =>
    obtain ⟨digits, rfl⟩ := List.head?_eq_some_iff.1 hhead
    have hdigits : At source (index + 1) digits := h.tail
    rw [fractionPart_point, fractionEnd]
    cases digits with
    | nil => exact if_neg (Nat.not_lt.2 hdigits.add_utf8Len.ge)
    | cons digit more =>
        have hlt : index + 1 < source.utf8ByteSize := by
          have := digit.utf8Size_pos
          have := hdigits.add_utf8Len
          rw [String.utf8Len_cons] at this
          omega
        have hpoint : lead '.' = '.' := lead_of_ascii (by decide)
        have hlead := isAscii_isDigit.lead_eq digit
        rw [if_pos hlt, h.byteAt_eq, hpoint]
        simp only [bind, Except.bind, if_true, hdigits.byteAt_eq,
          hdigits.runEnd_eq isAscii_continuesDigits]
        by_cases hdigit : (digit :: more).head?.any Char.isDigit
        · rw [if_pos (hlead.trans hdigit), if_pos hdigit, String.utf8Len_cons]
          exact congrArg Except.ok (by rw [show '.'.utf8Size = 1 from rfl]; omega)
        · rw [if_neg (fun hlead' => hdigit (hlead.symm.trans hlead')), if_neg hdigit]
          rfl

theorem At.exponentEnd_eq (h : At source index rest) :
    exponentEnd source index = .ok (index + utf8Len (exponentPart rest)) := by
  have hisMark : IsAscii fun c => c = 'e' || c = 'E' := .or (.eq (by decide)) (.eq (by decide))
  have hisSign : IsAscii fun c => c = '+' || c = '-' := .or (.eq (by decide)) (.eq (by decide))
  rw [exponentEnd, h.holdsAt_eq hisMark]
  by_cases hmark : ∃ mark ∈ rest.head?, mark = 'e' ∨ mark = 'E'
  case neg =>
    have hnone : rest.head?.any (fun c => c = 'e' || c = 'E') = false := by
      simpa [Option.any_eq_false] using hmark
    rw [exponentPart_eq_nil fun c hc hc' => hmark ⟨c, hc, hc'⟩, hnone]
    rfl
  case pos =>
    obtain ⟨mark, hhead, hmark⟩ := hmark
    obtain ⟨tail, rfl⟩ := List.head?_eq_some_iff.1 hhead
    have hsize : mark.utf8Size = 1 := by rcases hmark with rfl | rfl <;> rfl
    have htail : At source (index + 1) tail := hsize ▸ h.tail
    have hsome : (mark :: tail).head?.any (fun c => c = 'e' || c = 'E') = true := by
      simpa using hmark
    rw [hsome]
    simp only [bind, Except.bind, if_true, htail.holdsAt_eq hisSign]
    by_cases hsign : ∃ sign ∈ tail.head?, sign = '+' ∨ sign = '-'
    case pos =>
      obtain ⟨sign, hhead, hsign⟩ := hsign
      obtain ⟨digits, rfl⟩ := List.head?_eq_some_iff.1 hhead
      have hsize' : sign.utf8Size = 1 := by rcases hsign with rfl | rfl <;> rfl
      have hdigits : At source (index + 2) digits := by
        have := htail.tail
        rwa [hsize'] at this
      have hsome' : (sign :: digits).head?.any (fun c => c = '+' || c = '-') = true := by
        simpa using hsign
      rw [exponentPart_signed hmark hsign, hsome']
      simp only [if_true, hdigits.holdsAt_eq isAscii_isDigit]
      split_ifs
      · rw [hdigits.runEnd_eq isAscii_continuesDigits, String.utf8Len_cons, String.utf8Len_cons]
        exact congrArg Except.ok (by omega)
      · rfl
    case neg =>
      have hnone : tail.head?.any (fun c => c = '+' || c = '-') = false := by
        simpa [Option.any_eq_false] using hsign
      rw [exponentPart_unsigned hmark fun c hc hc' => hsign ⟨c, hc, hc'⟩, hnone]
      simp only [Bool.false_eq_true, if_false, htail.holdsAt_eq isAscii_isDigit]
      split_ifs
      · rw [htail.runEnd_eq isAscii_continuesDigits, String.utf8Len_cons]
        exact congrArg Except.ok (by omega)
      · rfl

/-- What the parts of a numeral stand for. -/
def assembled (integer fraction exponent : List Char) : Lexeme :=
  let width := integer.length + fraction.length + exponent.length - 1
  if fraction.isEmpty && exponent.isEmpty then
    match Word.parse? (ungrouped integer) with
    | some i => .ok (.int i, width)
    | none => .error (.invalidNumber (String.ofList integer))
  else
    let power := (Digits.signed? (ungrouped (exponent.drop 1))).getD 0
    .ok (.float (Decimal.ofParts (ungrouped integer) (ungrouped (fraction.drop 1)) power), width)

theorem width_of_assembled {integer fraction exponent : List Char} {kind : TokenKind} {width : Nat}
    (h : assembled integer fraction exponent = .ok (kind, width)) :
    width = integer.length + fraction.length + exponent.length - 1 := by
  unfold assembled at h
  dsimp only at h
  split at h
  · split at h <;> cases h
    rfl
  · cases h
    rfl

theorem number_of_parts {integer fraction exponent after : List Char}
    (hinteger : (integer ++ (fraction ++ (exponent ++ after))).takeWhile continuesDigits = integer)
    (hfraction : fractionPart (fraction ++ (exponent ++ after)) = fraction)
    (hexponent : exponentPart (exponent ++ after) = exponent) :
    number (integer ++ (fraction ++ (exponent ++ after))) = assembled integer fraction exponent := by
  simp only [number, hinteger, List.drop_left, hfraction, hexponent]
  rfl

/-- A numeral in front of a text has parts, and on its own it has the same ones. -/
theorem exists_parts {text : List Char} (hdigit : text.head?.any Char.isDigit) :
    ∃ integer fraction exponent after, text = integer ++ (fraction ++ (exponent ++ after)) ∧
      integer ≠ [] ∧ text.takeWhile continuesDigits = integer ∧
      fractionPart (fraction ++ (exponent ++ after)) = fraction ∧
      exponentPart (exponent ++ after) = exponent ∧
      number (integer ++ (fraction ++ exponent)) = assembled integer fraction exponent := by
  have hrun := isRun_takeWhile hdigit
  obtain ⟨afterInteger, hinteger⟩ := List.takeWhile_prefix continuesDigits (l := text)
  obtain ⟨afterFraction, hfraction⟩ := fractionPart_isPrefix afterInteger
  obtain ⟨after, hexponent⟩ := exponentPart_isPrefix afterFraction
  obtain ⟨d, more, hcons, -⟩ := hrun.exists_cons
  have hisFraction := isFraction_fractionPart afterInteger
  have hisExponent := isExponent_exponentPart afterFraction
  have hbreaks : Breaks [] := by simp [Breaks]
  obtain ⟨hintegerAlone, hfractionAlone⟩ := numeral_parts hrun hisFraction hisExponent hbreaks
  have halone := number_of_parts hintegerAlone hfractionAlone
    (exponentPart_append hisExponent hbreaks)
  refine ⟨_, fractionPart afterInteger, exponentPart afterFraction, after, ?_, ?_, rfl, ?_, ?_, ?_⟩
  · rw [hexponent, hfraction, hinteger]
  · simp [hcons]
  · rw [hexponent, hfraction]
  · rw [hexponent]
  · rwa [List.append_nil] at halone

theorem At.numeral_eq (h : At source index rest) (hdigit : rest.head?.any Char.isDigit) :
    numeral source index = located index rest (number rest) := by
  obtain ⟨integer, fraction, exponent, after, rfl, hne, htake, hfraction, hexponent, halone⟩ :=
    exists_parts hdigit
  have hafterInteger := h.append
  have hafterFraction := hafterInteger.append
  have hrun := h.runEnd_eq isAscii_continuesDigits
  have hfractionEnd := hafterInteger.fractionEnd_eq
  have hexponentEnd := hafterFraction.exponentEnd_eq
  rw [htake] at hrun
  rw [hfraction] at hfractionEnd
  rw [hexponent] at hexponentEnd
  have htext : integer ++ (fraction ++ (exponent ++ after)) =
      (integer ++ (fraction ++ exponent)) ++ after := by
    simp only [List.append_assoc]
  have hstop : index + utf8Len integer + utf8Len fraction + utf8Len exponent =
      index + utf8Len (integer ++ (fraction ++ exponent)) := by
    simp only [String.utf8Len_append]
    omega
  have hpart : part source index (index + utf8Len (integer ++ (fraction ++ exponent))) =
      .ok (integer ++ (fraction ++ exponent)) :=
    At.part_eq (htext ▸ h)
  rw [number_of_parts htake hfraction hexponent, numeral, hrun]
  simp only [bind, Except.bind, hfractionEnd, hexponentEnd, hstop, hpart, halone]
  cases hassembled : assembled integer fraction exponent with
  | error problem => rfl
  | ok found =>
      obtain ⟨kind, width⟩ := found
      have hwidth : width + 1 = (integer ++ (fraction ++ exponent)).length := by
        have hpos := List.length_pos_of_ne_nil hne
        simp only [width_of_assembled hassembled, List.length_append]
        omega
      rw [located, htext, List.take_left' hwidth.symm]

/-! ## Tokens -/

theorem At.word_eq {c : Char} (h : At source index (c :: rest)) (hstart : startsWord c) :
    word source index = located index (c :: rest)
      (.ok (.word (String.ofList (c :: rest.takeWhile continuesWord)),
        (rest.takeWhile continuesWord).length)) := by
  have hgoes : continuesWord c := by
    rcases Bool.or_eq_true_iff.1 hstart with halpha | hunderscore
    · exact Bool.or_eq_true_iff.2 (.inl (Bool.or_eq_true_iff.2 (.inl halpha)))
    · exact Bool.or_eq_true_iff.2 (.inr hunderscore)
  obtain ⟨after, hafter⟩ := List.takeWhile_prefix continuesWord (l := rest)
  have hrun := h.runEnd_eq isAscii_continuesWord
  rw [List.takeWhile_cons_of_pos hgoes] at hrun
  have hpart : part source index (index + utf8Len (c :: rest.takeWhile continuesWord)) =
      .ok (c :: rest.takeWhile continuesWord) :=
    At.part_eq (by rwa [List.cons_append, hafter])
  have htake := List.prefix_iff_eq_take.1 ⟨after, hafter⟩
  rw [word, hrun]
  simp only [bind, Except.bind, hpart, located, List.take_succ_cons, ← htake]
  rfl

/-- The operator that is found in front of a text is what the text starts with. -/
theorem take_of_find? {text symbol : List Char} {op : Operator}
    (h : (operators.find? fun (symbol, _) => symbol.isPrefixOf text) = some (symbol, op)) :
    text.take (symbol.length - 1 + 1) = symbol := by
  have hne : ∀ entry ∈ operators, 0 < entry.1.length := by decide
  have hpos := hne _ (List.mem_of_find?_eq_some h)
  have hfits : symbol <+: text := by simpa using List.find?_some h
  rw [Nat.sub_add_cancel hpos]
  exact (List.prefix_iff_eq_take.1 hfits).symm

theorem At.symbol_eq {c : Char} (h : At source index (c :: rest)) :
    symbol source index = located index (c :: rest)
      (if c = '?' ∧ rest.head? ≠ some '?' then .ok (.question, 0)
      else
        match operators.find? fun (symbol, _) => symbol.isPrefixOf (c :: rest) with
        | some (symbol, op) => .ok (.operator op, symbol.length - 1)
        | none => .error (.unexpectedCharacter c)) := by
  have hquestion : (['?'].isPrefixOf (c :: rest) ∧ ¬ ['?', '?'].isPrefixOf (c :: rest)) ↔
      c = '?' ∧ rest.head? ≠ some '?' := by
    cases rest <;> simp +contextual [@eq_comm _ '?']
  rw [symbol, h.part_eq_rest]
  simp only [bind, Except.bind, hquestion]
  split
  case isTrue hc =>
    obtain ⟨rfl, -⟩ := hc
    rfl
  case isFalse =>
    cases hfind : operators.find? fun (symbol, _) => symbol.isPrefixOf (c :: rest) with
    | none => rfl
    | some found => simp only [located, take_of_find? hfind]

theorem At.token_eq {c : Char} (h : At source index (c :: rest)) :
    token source index (lead c) = located index (c :: rest) (lexeme c rest) := by
  unfold lexeme
  split
  case h_7 c hleft hright hopen hclose hcomma hcolon =>
    unfold token
    split
    case h_1 heq => exact (hleft ((lead_eq_iff (by decide)).1 heq)).elim
    case h_2 heq => exact (hright ((lead_eq_iff (by decide)).1 heq)).elim
    case h_3 heq => exact (hopen ((lead_eq_iff (by decide)).1 heq)).elim
    case h_4 heq => exact (hclose ((lead_eq_iff (by decide)).1 heq)).elim
    case h_5 heq => exact (hcomma ((lead_eq_iff (by decide)).1 heq)).elim
    case h_6 heq => exact (hcolon ((lead_eq_iff (by decide)).1 heq)).elim
    case h_7 =>
      have hquote : '"'.toNat < 128 := by decide
      have hquote' : '\''.toNat < 128 := by decide
      simp only [lead_eq_iff hquote, lead_eq_iff hquote', isAscii_isDigit.lead_eq,
        isAscii_startsWord.lead_eq]
      split
      case isTrue => exact h.text_eq
      split
      case isTrue hdigit => exact h.numeral_eq hdigit
      split
      case isTrue hstart => exact h.word_eq hstart
      case isFalse => exact h.symbol_eq
  all_goals
    rw [lead_of_ascii (by decide)]
    rfl

/-! ## The whole source -/

theorem At.step_eq {c : Char} (h : At source index (c :: rest)) :
    step source index =
      if Blank.isAscii c then .ok (none, index + 1)
      else (located index (c :: rest) (lexeme c rest)).map fun (kind, stop) =>
        (some ⟨kind, index⟩, stop) := by
  rw [step, h.byteAt_eq]
  simp only [bind, Except.bind, isAscii_blank.lead_eq]
  split
  case isTrue => rfl
  case isFalse =>
    rw [h.token_eq]
    cases located index (c :: rest) (lexeme c rest) <;> rfl

/-- Passing over characters is passing over their bytes. -/
theorem scan_eq_scan_drop (width offset : Nat) (rest : List Char) :
    Lexer.scan width offset rest =
      Lexer.scan 0 (offset + utf8Len (rest.take width)) (rest.drop width) := by
  induction rest generalizing width offset with
  | nil => simp [Lexer.scan]
  | cons c rest ih =>
      cases width with
      | zero => rfl
      | succ width =>
          rw [Lexer.scan, ih, List.take_succ_cons, List.drop_succ_cons, String.utf8Len_cons,
            Nat.add_assoc, Nat.add_comm c.utf8Size]

/-- In front of a text the lexer on bytes finds the tokens of the text. -/
theorem At.scan_eq (h : At source index rest) :
    scan source index = (Lexer.scan 0 index rest).mapError .refused := by
  induction hlength : rest.length using Nat.strong_induction_on generalizing index rest with
  | _ length ih =>
      have hsize := h.add_utf8Len
      rw [scan]
      cases rest with
      | nil =>
          obtain rfl : index = source.utf8ByteSize := hsize
          rw [if_neg (Nat.lt_irrefl _), Lexer.scan]
          rfl
      | cons c rest =>
          have hpos := c.utf8Size_pos
          have hlt : index < source.utf8ByteSize := by
            rw [String.utf8Len_cons] at hsize
            omega
          rw [if_pos hlt, h.step_eq, Lexer.scan]
          by_cases hblank : Blank.isAscii c
          case pos =>
            have hone := utf8Size_of_ascii (isAscii_blank c hblank)
            have hrest := ih rest.length (by simp [← hlength]) (hone ▸ h.tail) rfl
            rw [if_pos hblank, if_pos hblank]
            dsimp only
            rw [if_pos (Nat.lt_succ_self index), hrest, hone]
            cases Lexer.scan 0 (index + 1) rest <;> rfl
          case neg =>
            rw [if_neg hblank, if_neg hblank]
            cases hlexeme : lexeme c rest with
            | error problem => rfl
            | ok found =>
                obtain ⟨kind, width⟩ := found
                have hdrop := ih (rest.drop width).length (by simp [← hlength])
                  (h.drop (width + 1)) rfl
                have hmoves : index < index + utf8Len ((c :: rest).take (width + 1)) := by
                  rw [List.take_succ_cons, String.utf8Len_cons]
                  omega
                have hstop : index + c.utf8Size + utf8Len (rest.take width) =
                    index + utf8Len ((c :: rest).take (width + 1)) := by
                  rw [List.take_succ_cons, String.utf8Len_cons]
                  omega
                dsimp only [located, Except.map]
                rw [if_pos hmoves, hdrop, scan_eq_scan_drop width, hstop, List.drop_succ_cons]
                generalize Lexer.scan 0 _ (rest.drop width) = found
                cases found <;> rfl

end Reading

/-- The lexer on bytes has no faults: every byte that it looks at is there, every part that it
takes starts and ends between characters, and it comes to the end. It finds what the lexer on
characters finds. -/
theorem tokenize_eq (source : String) :
    tokenize source = (Condition.tokenize source).mapError .refused :=
  (at_start source).scan_eq

end Cursor

end Targeting.Condition
