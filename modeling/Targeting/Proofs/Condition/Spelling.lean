/-
# How tokens are written

The lexer is described here from the other side. `Spells` lists the ways to write
a token: marks and operators as they are, words, texts in either kind of quotes
with escapes, numerals with groups of digits. `Writes` puts written tokens next to
each other with blanks between them. The main statement is that the lexer reads a
source written in this way as just these tokens.

A token ends where a blank or the end of the source follows, so what comes after a
written token matters only through its first character.
-/

import Mathlib
import Targeting.Condition.Token
import Targeting.Proofs.Number.Digits

namespace Targeting.Condition

open Lexer

/-! ## Written tokens -/

/-- The marks of one character. -/
def marks : List (Char × TokenKind) :=
  [('(', .leftParen), (')', .rightParen), ('[', .leftBracket), (']', .rightBracket),
    (',', .comma), (':', .colon), ('?', .question)]

/-- A run of digits, which underscores may group. -/
def IsRun (run : List Char) : Prop :=
  (∃ d ∈ run.head?, d.isDigit) ∧ ∀ c ∈ run, continuesDigits c

/-- A name: a letter or an underscore, and then also digits. -/
def IsWord (word : List Char) : Prop :=
  (∃ c ∈ word.head?, startsWord c) ∧ ∀ c ∈ word, continuesWord c

/-- The blanks between tokens. -/
def IsGap (gap : List Char) : Prop := ∀ c ∈ gap, Blank.isAscii c

instance (run : List Char) : Decidable (IsRun run) :=
  decidable_of_iff (run.head?.any Char.isDigit ∧ run.all continuesDigits)
    (by simp [IsRun, Option.any_eq_true])

instance (word : List Char) : Decidable (IsWord word) :=
  decidable_of_iff (word.head?.any startsWord ∧ word.all continuesWord)
    (by simp [IsWord, Option.any_eq_true])

instance (gap : List Char) : Decidable (IsGap gap) :=
  decidable_of_iff (gap.all Blank.isAscii) (by simp [IsGap])

/-- The fraction of a numeral: nothing, or a point and digits. -/
inductive IsFraction : List Char → Prop
  | none : IsFraction []
  | digits {run : List Char} : IsRun run → IsFraction ('.' :: run)

/-- The exponent of a numeral: nothing, or a letter, perhaps a sign, and digits. -/
inductive IsExponent : List Char → Prop
  | none : IsExponent []
  | digits {mark : Char} {sign run : List Char} : mark = 'e' ∨ mark = 'E' →
      sign ∈ [[], ['+'], ['-']] → IsRun run → IsExponent (mark :: (sign ++ run))

/-- The characters between quotes that stand for a text. A character stands for
itself, but for the quote and the backslash; what a backslash makes of the
character after it is said by `unescape`. -/
inductive Escaped (quote : Char) : (value body : List Char) → Prop
  | nil : Escaped quote [] []
  | plain {c : Char} {value body : List Char} : c ≠ quote → c ≠ '\\' →
      Escaped quote value body → Escaped quote (c :: value) (c :: body)
  | escape {c : Char} {value body : List Char} :
      Escaped quote value body → Escaped quote (unescape c :: value) ('\\' :: c :: body)

/-- The ways to write a token. -/
inductive Spells : TokenKind → List Char → Prop
  | mark {c : Char} {kind : TokenKind} : (c, kind) ∈ marks → Spells kind [c]
  | operator {symbol : List Char} {op : Operator} : (symbol, op) ∈ operators →
      Spells (.operator op) symbol
  | word {word : List Char} : IsWord word → Spells (.word (String.ofList word)) word
  | text {quote : Char} {value body : List Char} : quote = '"' ∨ quote = '\'' →
      Escaped quote value body → Spells (.text (String.ofList value)) (quote :: (body ++ [quote]))
  | int {run : List Char} {i : Int64} : IsRun run → Word.parse? (ungrouped run) = some i →
      Spells (.int i) run
  | float {integer fraction exponent : List Char} : IsRun integer → IsFraction fraction →
      IsExponent exponent → (fraction ≠ [] ∨ exponent ≠ []) →
      Spells (.float (Decimal.ofParts (ungrouped integer) (ungrouped (fraction.drop 1))
        ((Digits.signed? (ungrouped (exponent.drop 1))).getD 0))) (integer ++ fraction ++ exponent)

theorem Spells.name {name : String} (hname : IsWord name.toList) :
    Spells (.word name) name.toList := by
  simpa using Spells.word hname

theorem isRun_ofNat (n : Nat) : IsRun (Digits.ofNat n) := by
  have hall : ∀ c ∈ Digits.ofNat n, c.isDigit := fun _ hc => Digits.isDigit_of_mem_ofNat hc
  obtain ⟨d, more, hdigits⟩ := List.exists_cons_of_ne_nil (Digits.ofNat_ne_nil n)
  refine ⟨⟨d, by simp [hdigits], hall d (by simp [hdigits])⟩, fun c hc => ?_⟩
  simp [continuesDigits, hall c hc]

theorem ungrouped_ofNat (n : Nat) : ungrouped (Digits.ofNat n) = Digits.ofNat n := by
  refine List.filter_eq_self.2 fun c hc => ?_
  have hdigit : c.isDigit := Digits.isDigit_of_mem_ofNat hc
  rw [decide_eq_true_eq]
  rintro rfl
  exact absurd hdigit (by decide)

theorem Spells.integer {i : Int64} (hi : 0 ≤ i) : Spells (.int i) (Digits.ofNat i.toInt.toNat) :=
  .int (isRun_ofNat _) (by rw [ungrouped_ofNat, Word.parse?_ofNat hi])

/-- The characters of a text between quotes, with a backslash in front of the quote
and of the backslash and of nothing else. -/
def escapeIn (quote : Char) (value : List Char) : List Char :=
  value.flatMap fun c => if c = quote ∨ c = '\\' then ['\\', c] else [c]

theorem escaped_escapeIn {quote : Char} (hquote : quote = '"' ∨ quote = '\'') (value : List Char) :
    Escaped quote value (escapeIn quote value) := by
  induction value with
  | nil => exact .nil
  | cons c rest ih =>
      rw [escapeIn, List.flatMap_cons]
      by_cases hc : c = quote ∨ c = '\\'
      · have hself : unescape c = c := by
          rcases hquote with rfl | rfl <;> rcases hc with rfl | rfl <;> rfl
        have := ih.escape (c := c)
        rw [if_pos hc]
        rwa [hself] at this
      · rw [if_neg hc]
        exact .plain (fun h => hc (.inl h)) (fun h => hc (.inr h)) ih

/-- Every text can be written in either kind of quotes. -/
theorem Spells.quoted {quote : Char} (hquote : quote = '"' ∨ quote = '\'') (s : String) :
    Spells (.text s) (quote :: (escapeIn quote s.toList ++ [quote])) := by
  simpa using Spells.text hquote (escaped_escapeIn hquote s.toList)

/-! ## What ends a token -/

/-- A text that goes on with a blank, or not at all. -/
def Breaks (rest : List Char) : Prop := ∀ c ∈ rest.head?, Blank.isAscii c

theorem Breaks.head_cases {rest : List Char} (h : Breaks rest) :
    rest = [] ∨ ∃ b tail, rest = b :: tail ∧ b ∈ [' ', '\t', '\n', '\x0c', '\r'] := by
  rcases rest with _ | ⟨b, tail⟩
  · exact .inl rfl
  · have hb : Blank.isAscii b := h b rfl
    refine .inr ⟨b, tail, rfl, ?_⟩
    simpa [Blank.isAscii, or_assoc] using hb

/-- A run of characters of a class ends where a character outside of it follows. -/
theorem takeWhile_append_of_stops {p : Char → Bool} {run rest : List Char}
    (hrun : ∀ c ∈ run, p c) (hrest : ∀ c ∈ rest.head?, p c = false) :
    (run ++ rest).takeWhile p = run := by
  rw [List.takeWhile_append_of_pos hrun]
  rcases rest with _ | ⟨c, tail⟩
  · simp
  · simp [hrest c rfl]

/-- A class without blanks stops at a break. -/
theorem Breaks.stops {p : Char → Bool} {rest : List Char} (hrest : Breaks rest)
    (hp : [' ', '\t', '\n', '\x0c', '\r'].all fun b => !p b) :
    ∀ c ∈ rest.head?, p c = false := by
  intro c hc
  have hblank : Blank.isAscii c := hrest c hc
  have hmem : c ∈ [' ', '\t', '\n', '\x0c', '\r'] := by
    simpa [Blank.isAscii, or_assoc] using hblank
  simpa using List.all_eq_true.1 hp c hmem

/-- A class without blanks has no blank in it. -/
theorem isAscii_eq_false {p : Char → Bool} {c : Char} (hc : p c)
    (hp : [' ', '\t', '\n', '\x0c', '\r'].all fun b => !p b) : Blank.isAscii c = false := by
  by_contra hblank
  have hbreaks : Breaks [c] := by simpa [Breaks] using hblank
  simp [hbreaks.stops hp c rfl] at hc

/-! ## Reading one token -/

theorem lexeme_mark {c : Char} {kind : TokenKind} (hmark : (c, kind) ∈ marks)
    {rest : List Char} (hrest : Breaks rest) : lexeme c rest = .ok (kind, 0) := by
  have hquestion : rest.head? ≠ some '?' := by
    intro hhead
    exact absurd (hrest '?' hhead) (by decide)
  simp only [marks, List.mem_cons, List.not_mem_nil, or_false, Prod.mk.injEq] at hmark
  rcases hmark with ⟨rfl, rfl⟩ | ⟨rfl, rfl⟩ | ⟨rfl, rfl⟩ | ⟨rfl, rfl⟩ | ⟨rfl, rfl⟩ |
    ⟨rfl, rfl⟩ | ⟨rfl, rfl⟩
  case inr.inr.inr.inr.inr.inr => simp [lexeme, hquestion, startsWord]
  all_goals rfl

theorem lexeme_operator {c : Char} {tail : List Char} {op : Operator}
    (hop : (c :: tail, op) ∈ operators) {rest : List Char} (hrest : Breaks rest) :
    lexeme c (tail ++ rest) = .ok (.operator op, tail.length) := by
  have hfollow := hrest.head_cases
  simp only [operators, List.mem_cons, List.not_mem_nil, or_false, Prod.mk.injEq,
    List.cons.injEq] at hop
  simp only [List.mem_cons, List.not_mem_nil, or_false] at hfollow
  rcases hfollow with rfl | ⟨b, after, rfl, rfl | rfl | rfl | rfl | rfl⟩ <;>
    rcases hop with ⟨⟨rfl, rfl⟩, rfl⟩ | ⟨⟨rfl, rfl⟩, rfl⟩ | ⟨⟨rfl, rfl⟩, rfl⟩ |
      ⟨⟨rfl, rfl⟩, rfl⟩ | ⟨⟨rfl, rfl⟩, rfl⟩ | ⟨⟨rfl, rfl⟩, rfl⟩ | ⟨⟨rfl, rfl⟩, rfl⟩ |
      ⟨⟨rfl, rfl⟩, rfl⟩ | ⟨⟨rfl, rfl⟩, rfl⟩ | ⟨⟨rfl, rfl⟩, rfl⟩ | ⟨⟨rfl, rfl⟩, rfl⟩ |
      ⟨⟨rfl, rfl⟩, rfl⟩ | ⟨⟨rfl, rfl⟩, rfl⟩ | ⟨⟨rfl, rfl⟩, rfl⟩ | ⟨⟨rfl, rfl⟩, rfl⟩ <;> rfl

theorem isDigit_eq_false_of_startsWord {c : Char} (hc : startsWord c) : c.isDigit = false := by
  simp only [startsWord, Char.isAlpha, Char.isUpper, Char.isLower, Bool.or_eq_true,
    Bool.and_eq_true, decide_eq_true_eq] at hc
  simp only [Char.isDigit, Bool.and_eq_false_iff, decide_eq_false_iff_not]
  rcases hc with (⟨hupper, -⟩ | ⟨hlower, -⟩) | rfl
  · right
    grind
  · right
    grind
  · decide

/-- A character that starts a name has no other use. -/
theorem lexeme_word {c : Char} {tail : List Char} (hword : IsWord (c :: tail)) {rest : List Char}
    (hrest : ∀ d ∈ rest.head?, continuesWord d = false) :
    lexeme c (tail ++ rest) = .ok (.word (String.ofList (c :: tail)), tail.length) := by
  obtain ⟨⟨first, hfirst, hstart⟩, hall⟩ := hword
  obtain rfl : c = first := by simpa using hfirst
  have htail : (tail ++ rest).takeWhile continuesWord = tail :=
    takeWhile_append_of_stops (fun d hd => hall d (List.mem_cons_of_mem _ hd)) hrest
  have hquote : ¬ (c = '"' ∨ c = '\'') := by
    rintro (rfl | rfl) <;> exact absurd hstart (by decide)
  have hdigit : ¬ c.isDigit := by simp [isDigit_eq_false_of_startsWord hstart]
  unfold lexeme
  split <;> try exact absurd hstart (by decide)
  rw [if_neg hquote, if_neg hdigit, if_pos hstart, htail]

theorem textBody_escaped {quote : Char} (hquote : quote ≠ '\\') {value body : List Char}
    (hbody : Escaped quote value body) (rest : List Char) :
    textBody quote (body ++ quote :: rest) = some (value, body.length + 1) := by
  induction hbody with
  | nil => cases rest <;> simp [textBody]
  | @plain c value body hc hslash _ ih =>
      obtain ⟨next, after, hnext⟩ : ∃ next after, body ++ quote :: rest = next :: after := by
        cases body <;> simp
      rw [List.cons_append, hnext, textBody, if_neg hc, if_neg hslash, ← hnext, ih]
      rfl
  | @escape c value body _ ih =>
      rw [List.cons_append, List.cons_append, textBody, if_neg hquote.symm, if_pos rfl, ih]
      rfl

theorem lexeme_text {quote : Char} (hquote : quote = '"' ∨ quote = '\'') {value body : List Char}
    (hbody : Escaped quote value body) (rest : List Char) :
    lexeme quote (body ++ quote :: rest) =
      .ok (.text (String.ofList value), body.length + 1) := by
  have hslash : quote ≠ '\\' := by
    rcases hquote with rfl | rfl <;> decide
  have hread := textBody_escaped hslash hbody rest
  rcases hquote with rfl | rfl <;> simp [lexeme, hread]

/-! ## Numerals -/

theorem fractionPart_append {fraction rest : List Char} (hfraction : IsFraction fraction)
    (hdigits : ∀ c ∈ rest.head?, continuesDigits c = false) (hpoint : rest.head? ≠ some '.') :
    fractionPart (fraction ++ rest) = fraction := by
  cases hfraction with
  | none =>
      rw [List.nil_append]
      unfold fractionPart
      split
      · exact absurd rfl hpoint
      · rfl
  | @digits run hrun =>
      obtain ⟨⟨d, hd, hdigit⟩, hall⟩ := hrun
      obtain ⟨more, rfl⟩ := List.head?_eq_some_iff.1 hd
      have hmore : (more ++ rest).takeWhile continuesDigits = more :=
        takeWhile_append_of_stops (fun c hc => hall c (List.mem_cons_of_mem _ hc)) hdigits
      simp only [List.cons_append, fractionPart, hdigit, if_true, hmore]

/-- Without its letter there is no exponent. -/
theorem exponentPart_eq_nil {rest : List Char}
    (hmark : ∀ c ∈ rest.head?, ¬ (c = 'e' ∨ c = 'E')) : exponentPart rest = [] := by
  rcases rest with _ | ⟨b, _ | ⟨x, _ | ⟨y, tail⟩⟩⟩
  · rfl
  · rfl
  · simp [exponentPart, hmark b rfl]
  · simp [exponentPart, hmark b rfl]

theorem exponentPart_append {exponent rest : List Char} (hexponent : IsExponent exponent)
    (hrest : Breaks rest) : exponentPart (exponent ++ rest) = exponent := by
  cases hexponent with
  | none =>
      refine exponentPart_eq_nil fun c hc => ?_
      have hblank := hrest c hc
      rintro (rfl | rfl) <;> exact absurd hblank (by decide)
  | @digits mark sign run hmark hsign hrun =>
      obtain ⟨⟨d, hd, hdigit⟩, hall⟩ := hrun
      obtain ⟨more, rfl⟩ := List.head?_eq_some_iff.1 hd
      have hmore : (more ++ rest).takeWhile continuesDigits = more :=
        takeWhile_append_of_stops (fun c hc => hall c (List.mem_cons_of_mem _ hc))
          (hrest.stops (by decide))
      simp only [List.mem_cons, List.not_mem_nil, or_false] at hsign
      rcases hsign with rfl | rfl | rfl
      · rcases hcases : more ++ rest with _ | ⟨x, after⟩
        · obtain ⟨rfl, rfl⟩ := List.append_eq_nil_iff.1 hcases
          simp [exponentPart, hmark, hdigit]
        · have hx : List.takeWhile continuesDigits (x :: after) = more := by rw [← hcases, hmore]
          simp [exponentPart, hmark, hdigit, hcases, hx]
      · simp [exponentPart, hmark, hdigit, hmore]
      · simp [exponentPart, hmark, hdigit, hmore]

/-- What follows the digits in front of a numeral neither goes on with digits nor,
after the fraction, with a second point. -/
theorem head_exponent {exponent rest : List Char} (hexponent : IsExponent exponent)
    (hrest : Breaks rest) :
    ∀ c ∈ (exponent ++ rest).head?, continuesDigits c = false ∧ c ≠ '.' := by
  intro c hc
  cases hexponent with
  | none =>
      have hblank : Blank.isAscii c := hrest c hc
      refine ⟨hrest.stops (by decide) c hc, ?_⟩
      rintro rfl
      exact absurd hblank (by decide)
  | @digits mark sign run hmark _ _ =>
      obtain rfl : mark = c := by simpa using hc
      rcases hmark with rfl | rfl <;> decide

theorem head_fraction {fraction rest : List Char} (hfraction : IsFraction fraction)
    (hrest : ∀ c ∈ rest.head?, continuesDigits c = false) :
    ∀ c ∈ (fraction ++ rest).head?, continuesDigits c = false := by
  cases hfraction with
  | none => exact hrest
  | digits hrun =>
      intro c hc
      obtain rfl : '.' = c := by simpa using hc
      decide

/-- The integer part and the fraction of a numeral are found where they were
written; for the exponent this is `exponentPart_append`. -/
theorem numeral_parts {integer fraction exponent rest : List Char} (hinteger : IsRun integer)
    (hfraction : IsFraction fraction) (hexponent : IsExponent exponent) (hrest : Breaks rest) :
    (integer ++ (fraction ++ (exponent ++ rest))).takeWhile continuesDigits = integer ∧
      fractionPart (fraction ++ (exponent ++ rest)) = fraction := by
  have hexp := head_exponent hexponent hrest
  have hstop : ∀ c ∈ (exponent ++ rest).head?, continuesDigits c = false :=
    fun c hc => (hexp c hc).1
  exact ⟨takeWhile_append_of_stops hinteger.2 (head_fraction hfraction hstop),
    fractionPart_append hfraction hstop fun hhead => (hexp '.' hhead).2 rfl⟩

theorem number_int {run rest : List Char} {i : Int64} (hrun : IsRun run)
    (hvalue : Word.parse? (ungrouped run) = some i) (hrest : Breaks rest) :
    number (run ++ rest) = .ok (.int i, run.length - 1) := by
  obtain ⟨hint, hfrac⟩ := numeral_parts hrun .none .none hrest
  have hexp := exponentPart_append .none hrest
  simp only [List.nil_append] at hint hfrac hexp
  simp [number, hint, hfrac, hexp, hvalue]

theorem number_float {integer fraction exponent rest : List Char} (hinteger : IsRun integer)
    (hfraction : IsFraction fraction) (hexponent : IsExponent exponent)
    (hparts : fraction ≠ [] ∨ exponent ≠ []) (hrest : Breaks rest) :
    number (integer ++ (fraction ++ (exponent ++ rest))) =
      .ok (.float (Decimal.ofParts (ungrouped integer) (ungrouped (fraction.drop 1))
        ((Digits.signed? (ungrouped (exponent.drop 1))).getD 0)),
        integer.length + fraction.length + exponent.length - 1) := by
  obtain ⟨hint, hfrac⟩ := numeral_parts hinteger hfraction hexponent hrest
  have hfloat : (fraction.isEmpty && exponent.isEmpty) = false := by
    simpa [imp_iff_not_or] using hparts
  simp only [number, hint, List.drop_left, hfrac, exponentPart_append hexponent hrest, hfloat,
    Bool.false_eq_true, if_false]

theorem lexeme_digit {c : Char} (hc : c.isDigit) (rest : List Char) :
    lexeme c rest = number (c :: rest) := by
  have hquote : ¬ (c = '"' ∨ c = '\'') := by
    rintro (rfl | rfl) <;> exact absurd hc (by decide)
  unfold lexeme
  split <;> try exact absurd hc (by decide)
  rw [if_neg hquote, if_pos hc]

theorem IsRun.exists_cons {run : List Char} (hrun : IsRun run) :
    ∃ d more, run = d :: more ∧ d.isDigit := by
  obtain ⟨⟨d, hd, hdigit⟩, -⟩ := hrun
  obtain ⟨more, rfl⟩ := List.head?_eq_some_iff.1 hd
  exact ⟨d, more, rfl, hdigit⟩

/-- A written token is read as the token, up to its end. -/
theorem lexeme_of_spells {kind : TokenKind} {c : Char} {tail : List Char}
    (hspells : Spells kind (c :: tail)) {rest : List Char} (hrest : Breaks rest) :
    lexeme c (tail ++ rest) = .ok (kind, tail.length) := by
  generalize htext : c :: tail = text at hspells
  cases hspells with
  | mark hmark =>
      cases htext
      exact lexeme_mark hmark hrest
  | operator hop =>
      subst htext
      exact lexeme_operator hop hrest
  | word hword =>
      subst htext
      exact lexeme_word hword (hrest.stops (by decide))
  | @text quote value body hquote hbody =>
      cases htext
      simpa using lexeme_text hquote hbody rest
  | int hrun hvalue =>
      subst htext
      obtain ⟨d, more, heq, hdigit⟩ := hrun.exists_cons
      cases heq
      rw [lexeme_digit hdigit, ← List.cons_append, number_int hrun hvalue hrest]
      simp
  | @float integer fraction exponent hinteger hfraction hexponent hparts =>
      obtain ⟨d, more, rfl, hdigit⟩ := hinteger.exists_cons
      obtain ⟨rfl, rfl⟩ : c = d ∧ tail = more ++ (fraction ++ exponent) := by
        simpa using htext
      have hread := number_float hinteger hfraction hexponent hparts hrest
      have hlength : (c :: more).length + fraction.length + exponent.length - 1 =
          (more ++ (fraction ++ exponent)).length := by
        simp
        omega
      rw [hlength, List.cons_append] at hread
      rw [lexeme_digit hdigit, List.append_assoc, List.append_assoc, hread]

/-- A written token starts with a character that is not blank. -/
theorem Spells.exists_cons {kind : TokenKind} {lexeme : List Char} (h : Spells kind lexeme) :
    ∃ c tail, lexeme = c :: tail ∧ Blank.isAscii c = false := by
  cases h with
  | @mark c kind hmark =>
      refine ⟨c, [], rfl, isAscii_eq_false (p := fun c => marks.any fun entry => entry.1 = c) ?_ (by decide)⟩
      exact List.any_eq_true.2 ⟨_, hmark, by simp⟩
  | @operator symbol op hop =>
      have hall : ∀ entry ∈ operators, entry.1.head?.any fun c => !Blank.isAscii c := by decide
      obtain ⟨c, hc, hblank⟩ := (Option.any_eq_true _ _).1 (hall _ hop)
      obtain ⟨tail, rfl⟩ := List.head?_eq_some_iff.1 hc
      exact ⟨c, tail, rfl, by simpa using hblank⟩
  | word hword =>
      obtain ⟨⟨c, hc, hstart⟩, -⟩ := hword
      obtain ⟨tail, rfl⟩ := List.head?_eq_some_iff.1 hc
      exact ⟨c, tail, rfl, isAscii_eq_false hstart (by decide)⟩
  | text hquote _ =>
      refine ⟨_, _, rfl, ?_⟩
      rcases hquote with rfl | rfl <;> decide
  | int hrun hvalue =>
      obtain ⟨d, more, rfl, hdigit⟩ := hrun.exists_cons
      exact ⟨d, more, rfl, isAscii_eq_false hdigit (by decide)⟩
  | float hinteger =>
      obtain ⟨d, more, rfl, hdigit⟩ := hinteger.exists_cons
      exact ⟨d, _, rfl, isAscii_eq_false hdigit (by decide)⟩

/-! ## Reading a source -/

/-- Wherever it starts, a scan of a text finds tokens of given kinds. -/
def ScansTo (text : List Char) (kinds : List TokenKind) : Prop :=
  ∀ offset, ∃ tokens, scan 0 offset text = .ok tokens ∧ tokens.map Token.kind = kinds

/-- Characters that belong to a token are passed over. -/
theorem scan_skip (tail rest : List Char) (offset : Nat) :
    ∃ offset', scan tail.length offset (tail ++ rest) = scan 0 offset' rest := by
  induction tail generalizing offset with
  | nil => exact ⟨offset, rfl⟩
  | cons c tail ih =>
      obtain ⟨offset', hscan⟩ := ih (offset + c.utf8Size)
      refine ⟨offset', ?_⟩
      rw [← hscan, List.length_cons, List.cons_append, scan]

/-- Blanks are passed over. -/
theorem scan_blanks {gap : List Char} (hgap : IsGap gap) (rest : List Char) (offset : Nat) :
    ∃ offset', scan 0 offset (gap ++ rest) = scan 0 offset' rest := by
  induction gap generalizing offset with
  | nil => exact ⟨offset, rfl⟩
  | cons c gap ih =>
      obtain ⟨hc, hgap⟩ := List.forall_mem_cons.1 hgap
      rw [List.cons_append, scan, if_pos hc]
      exact ih hgap _

theorem scansTo_nil : ScansTo [] [.stop] :=
  fun offset => ⟨[⟨.stop, offset⟩], rfl, rfl⟩

theorem ScansTo.blanks {gap rest : List Char} {kinds : List TokenKind}
    (hgap : IsGap gap) (hrest : ScansTo rest kinds) :
    ScansTo (gap ++ rest) kinds := by
  intro offset
  obtain ⟨offset', hskip⟩ := scan_blanks hgap rest offset
  rw [hskip]
  exact hrest offset'

/-- A token that is read where a scan starts is the next one. -/
theorem ScansTo.cons {kind : TokenKind} {c : Char} {tail rest : List Char}
    {kinds : List TokenKind} (hblank : Blank.isAscii c = false)
    (hread : Lexer.lexeme c (tail ++ rest) = .ok (kind, tail.length))
    (hrest : ScansTo rest kinds) : ScansTo (c :: (tail ++ rest)) (kind :: kinds) := by
  intro offset
  obtain ⟨offset', hskip⟩ := scan_skip tail rest (offset + c.utf8Size)
  obtain ⟨tokens, hscan, hkinds⟩ := hrest offset'
  refine ⟨⟨kind, offset⟩ :: tokens, ?_, by rw [List.map_cons, hkinds]⟩
  rw [scan, hblank, hread]
  simp [hskip, hscan]

/-- A written token in front of a break is the next token of a scan. -/
theorem ScansTo.lexeme {kind : TokenKind} {lexeme rest : List Char} {kinds : List TokenKind}
    (hspells : Spells kind lexeme) (hbreaks : Breaks rest) (hrest : ScansTo rest kinds) :
    ScansTo (lexeme ++ rest) (kind :: kinds) := by
  obtain ⟨c, tail, rfl, hblank⟩ := hspells.exists_cons
  exact .cons hblank (lexeme_of_spells hspells hbreaks) hrest

/-- Written tokens with at least one blank between any two. -/
inductive Spaced : List TokenKind → List Char → Prop
  | last {kind : TokenKind} {lexeme : List Char} : Spells kind lexeme → Spaced [kind] lexeme
  | next {kind : TokenKind} {kinds : List TokenKind} {lexeme text : List Char} (gap : List Char) :
      Spells kind lexeme → gap ≠ [] → IsGap gap → Spaced kinds text →
      Spaced (kind :: kinds) (lexeme ++ (gap ++ text))

/-- A source that consists of written tokens with blanks between them, and perhaps
around them. -/
def Writes (kinds : List TokenKind) (source : String) : Prop :=
  ∃ before text after, IsGap before ∧ IsGap after ∧ Spaced kinds text ∧
    source.toList = before ++ (text ++ after)

theorem breaks_of_blanks {gap : List Char} (hgap : IsGap gap) : Breaks gap :=
  fun c hc => hgap c (List.mem_of_mem_head? hc)

theorem breaks_append {gap : List Char} (hne : gap ≠ []) (hgap : IsGap gap)
    (rest : List Char) : Breaks (gap ++ rest) := by
  rcases gap with _ | ⟨b, gap⟩
  · exact absurd rfl hne
  · rintro c hc
    obtain rfl : b = c := by simpa using hc
    exact hgap b List.mem_cons_self

theorem Spaced.scansTo {kinds : List TokenKind} {text after : List Char} (h : Spaced kinds text)
    (hafter : IsGap after) : ScansTo (text ++ after) (kinds ++ [.stop]) := by
  induction h with
  | last hspells =>
      have hend : ScansTo after [.stop] := by simpa using scansTo_nil.blanks hafter
      exact hend.lexeme hspells (breaks_of_blanks hafter)
  | next gap hspells hne hgap _ ih =>
      rw [List.append_assoc, List.append_assoc, List.cons_append]
      exact (ih.blanks hgap).lexeme hspells (breaks_append hne hgap _)

/-- A written source is read as the tokens that it was written with. -/
theorem tokenize_of_writes {kinds : List TokenKind} {source : String} (h : Writes kinds source) :
    ∃ tokens, tokenize source = .ok tokens ∧ tokens.map Token.kind = kinds ++ [.stop] := by
  obtain ⟨before, text, after, hbefore, hafter, hspaced, hsource⟩ := h
  rw [tokenize, hsource]
  exact (hspaced.scansTo hafter).blanks hbefore 0

/-- Tokens that can be written one by one can be written next to each other. -/
theorem exists_writes {kinds : List TokenKind} (hne : kinds ≠ [])
    (hspells : ∀ kind ∈ kinds, ∃ lexeme, Spells kind lexeme) : ∃ source, Writes kinds source := by
  obtain ⟨text, htext⟩ : ∃ text, Spaced kinds text := by
    induction kinds with
    | nil => exact absurd rfl hne
    | cons kind rest ih =>
        obtain ⟨⟨lexeme, hlexeme⟩, hrest⟩ := List.forall_mem_cons.1 hspells
        by_cases hnil : rest = []
        · subst hnil
          exact ⟨lexeme, .last hlexeme⟩
        · obtain ⟨text, htext⟩ := ih hnil hrest
          exact ⟨_, .next [' '] hlexeme (by decide) (by decide) htext⟩
  exact ⟨String.ofList text, [], text, [], by decide, by decide, htext, by simp⟩

end Targeting.Condition
