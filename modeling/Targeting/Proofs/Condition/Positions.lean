/-
# Where tokens and errors are

A position in the source of a condition is a byte offset. The tokens of a source stand in front of
characters, each of them after the one before, and the mark of the end stands at the length of the
source. Whatever is wrong with a source is found at one of its tokens, or by the lexer where a
token should start. So no offset is inside a character or past the end, and a part of the source
that starts at an offset can be shown.

Placement is an invariant of the scan: one lemma for a token in front of placed ones, and an
induction along the scan. That the parser refuses at tokens only is what its readers keep to.
-/

import Targeting.Proofs.Condition.Cursor
import Targeting.Proofs.Condition.Nesting

namespace Targeting.Condition

open Cursor (At)

/-- Tokens of a source from an index on, as they should be placed. -/
structure Placed (source : String) (index : Nat) (tokens : List Token) : Prop where
  /-- Nothing but the last token marks the end, and it is where the source ends. -/
  ends : ∃ front, tokens = front ++ [⟨.stop, source.utf8ByteSize⟩] ∧
    ∀ token ∈ front, token.kind ≠ .stop
  /-- Each token is after the one before. -/
  increases : tokens.Pairwise fun token next => token.offset < next.offset
  /-- Every token is in front of a character or at the end. -/
  isValid : ∀ token ∈ tokens, String.Pos.Raw.IsValid source ⟨token.offset⟩
  /-- No token is in front of the index. -/
  le_offset : ∀ token ∈ tokens, index ≤ token.offset

namespace Placed

variable {source : String} {index : Nat} {tokens : List Token}

theorem stop (source : String) :
    Placed source source.utf8ByteSize [⟨.stop, source.utf8ByteSize⟩] where
  ends := ⟨[], rfl, by simp⟩
  increases := List.pairwise_singleton _ _
  isValid := List.forall_mem_singleton.2 String.Pos.Raw.isValid_rawEndPos
  le_offset := by simp

theorem mono (h : Placed source index tokens) {index' : Nat} (hle : index' ≤ index) :
    Placed source index' tokens :=
  { h with le_offset := fun token htoken => hle.trans (h.le_offset token htoken) }

/-- A token in front of a character and of placed tokens. -/
theorem cons {rest : List Char} {kind : TokenKind} {offset : Nat} (h : Placed source index tokens)
    (hkind : kind ≠ .stop) (hat : At source offset rest) (hlt : offset < index) :
    Placed source offset (⟨kind, offset⟩ :: tokens) where
  ends := by
    obtain ⟨front, rfl, hfront⟩ := h.ends
    exact ⟨⟨kind, offset⟩ :: front, rfl, List.forall_mem_cons.2 ⟨hkind, hfront⟩⟩
  increases := List.pairwise_cons.2
    ⟨fun token htoken => hlt.trans_le (h.le_offset token htoken), h.increases⟩
  isValid := List.forall_mem_cons.2 ⟨hat.isValid, h.isValid⟩
  le_offset := List.forall_mem_cons.2
    ⟨le_rfl, fun token htoken => hlt.le.trans (h.le_offset token htoken)⟩

end Placed

namespace Lexer

/-! ## Along the scan -/

theorem ne_stop_of_number {text : List Char} {kind : TokenKind} {width : Nat}
    (h : number text = .ok (kind, width)) : kind ≠ .stop := by
  unfold number at h
  dsimp only at h
  split at h
  case isTrue =>
    split at h <;> cases h
    nofun
  case isFalse =>
    cases h
    nofun

/-- No characters are read as the mark of the end. -/
theorem ne_stop_of_lexeme {c : Char} {rest : List Char} {kind : TokenKind} {width : Nat}
    (h : lexeme c rest = .ok (kind, width)) : kind ≠ .stop := by
  unfold lexeme at h
  split at h
  case h_7 =>
    split at h
    case isTrue =>
      split at h <;> cases h
      nofun
    split at h
    case isTrue => exact ne_stop_of_number h
    split at h
    case isTrue =>
      cases h
      nofun
    split at h
    case isTrue =>
      cases h
      nofun
    case isFalse =>
      split at h <;> cases h
      nofun
  all_goals
    cases h
    nofun

theorem placed_of_scan {source : String} {text : List Char} {skip offset : Nat}
    {tokens : List Token} (hat : At source offset text) (h : scan skip offset text = .ok tokens) :
    Placed source offset tokens := by
  fun_induction scan skip offset text generalizing tokens with
  | case1 _ offset =>
      cases h
      obtain rfl : offset = source.utf8ByteSize := hat.add_utf8Len
      exact .stop source
  | case2 _ offset c rest ih => exact (ih hat.tail h).mono (Nat.le_add_right _ _)
  | case3 offset c rest _ ih => exact (ih hat.tail h).mono (Nat.le_add_right _ _)
  | case4 => cases h
  | case5 => cases h
  | case6 offset c rest _ kind width hlexeme tokens hscan ih =>
      cases h
      exact (ih hat.tail hscan).cons (ne_stop_of_lexeme hlexeme) hat
        (Nat.lt_add_of_pos_right c.utf8Size_pos)

/-- The scan refuses in front of a character. -/
theorem isValid_of_scan_eq_error {source : String} {text : List Char} {skip offset : Nat}
    {err : SyntaxError} (hat : At source offset text) (h : scan skip offset text = .error err) :
    String.Pos.Raw.IsValid source ⟨err.offset⟩ := by
  fun_induction scan skip offset text with
  | case1 => cases h
  | case2 _ offset c rest ih => exact ih hat.tail h
  | case3 offset c rest _ ih => exact ih hat.tail h
  | case4 =>
      cases h
      exact hat.isValid
  | case5 offset c rest _ kind width _ err' hscan ih =>
      cases h
      exact ih hat.tail hscan
  | case6 => cases h

end Lexer

/-! ## Sources -/

theorem placed_of_tokenize {source : String} {tokens : List Token}
    (h : tokenize source = .ok tokens) : Placed source 0 tokens :=
  Lexer.placed_of_scan (Cursor.at_start source) h

/-- A source that has tokens is refused at one of them. -/
theorem exists_token_of_parse_eq_error {source : String} {tokens : List Token} {err : SyntaxError}
    (htokens : tokenize source = .ok tokens) (h : Expr.parse source = .error err) :
    ∃ token ∈ tokens, token.offset = err.offset := by
  have hkeeps := (Parser.keeps_within Parser.maxDepth).1 tokens (Parser.isStream_of_tokenize htokens)
  rw [Expr.parse, htokens, level_eq] at h
  cases hread : Parser.expression (within Parser.maxDepth) tokens with
  | error err' =>
      simp only [bind, Except.bind, hread] at h
      cases h
      rwa [hread] at hkeeps
  | ok read =>
      simp only [bind, Except.bind, hread] at h
      rw [hread] at hkeeps
      obtain ⟨-, hsuffix, hstream⟩ := hkeeps
      split at h <;> cases h
      exact ⟨Parser.peek read.2, hsuffix.subset hstream.peek_mem, rfl⟩

theorem isValid_of_error {source : String} {err : SyntaxError}
    (h : tokenize source = .error err ∨ Expr.parse source = .error err) :
    String.Pos.Raw.IsValid source ⟨err.offset⟩ := by
  cases htokens : tokenize source with
  | error err' =>
      have heq : err' = err := by
        rcases h with h | h
        · exact Except.error.inj (htokens.symm.trans h)
        · rw [Expr.parse, htokens] at h
          exact Except.error.inj h
      exact Lexer.isValid_of_scan_eq_error (Cursor.at_start source) (heq ▸ htokens)
  | ok tokens =>
      rcases h with h | h
      · cases htokens.symm.trans h
      · obtain ⟨token, htoken, hoffset⟩ := exists_token_of_parse_eq_error htokens h
        exact hoffset ▸ (placed_of_tokenize htokens).isValid token htoken

/-- Reading a source in place has no faults, whatever the source: no byte is looked at that is not
there, no part is taken that starts or ends inside a character, and the cursor comes to the end.
The tokens stand in front of characters, one after the other, and the only mark of the end stands
at the length of the source. The errors of the lexer and of the parser are at offsets in front of
a character or at the end. -/
theorem positions_are_sound (source : String) :
    (∀ fault, Cursor.tokenize source ≠ .error (.fault fault)) ∧
    Cursor.tokenize source = (tokenize source).mapError .refused ∧
    (∀ tokens, tokenize source = .ok tokens →
      (tokens.Pairwise fun token next => token.offset < next.offset) ∧
      (∀ token ∈ tokens, String.Pos.Raw.IsValid source ⟨token.offset⟩) ∧
      ∃ front, tokens = front ++ [⟨.stop, source.utf8ByteSize⟩] ∧
        ∀ token ∈ front, token.kind ≠ .stop) ∧
    ∀ err, tokenize source = .error err ∨ Expr.parse source = .error err →
      String.Pos.Raw.IsValid source ⟨err.offset⟩ ∧ err.offset ≤ source.utf8ByteSize := by
  have hequal := Cursor.tokenize_eq source
  refine ⟨fun fault hfault => ?_, hequal, fun tokens htokens => ?_, fun err herr => ?_⟩
  · rw [hequal] at hfault
    cases htokens : tokenize source <;> rw [htokens] at hfault <;> cases hfault
  · have hplaced := placed_of_tokenize htokens
    exact ⟨hplaced.increases, hplaced.isValid, hplaced.ends⟩
  · have hvalid := isValid_of_error herr
    exact ⟨hvalid, hvalid.le_utf8ByteSize⟩

/-- A letter of two bytes in a text literal, before a token and before the end that the parser
refuses. -/
theorem positions_after_accent :
    let tokens : List Token :=
      [⟨.text "é", 0⟩, ⟨.operator (.binary .eq), 5⟩, ⟨.word "x", 8⟩, ⟨.stop, 9⟩]
    tokenize "'é' == x" = .ok tokens ∧
      (tokens.Pairwise fun token next => token.offset < next.offset) ∧
      (∀ token ∈ tokens, String.Pos.Raw.IsValid "'é' == x" ⟨token.offset⟩) ∧
      Expr.parse "'é' ==" = .error ⟨7, .unexpectedEnd⟩ ∧
      String.Pos.Raw.IsValid "'é' ==" ⟨7⟩ := by
  intro tokens
  have htokens : tokenize "'é' == x" = .ok tokens := rfl
  have herror : Expr.parse "'é' ==" = .error ⟨7, .unexpectedEnd⟩ := rfl
  obtain ⟨-, -, hok, -⟩ := positions_are_sound "'é' == x"
  obtain ⟨-, -, -, hfails⟩ := positions_are_sound "'é' =="
  obtain ⟨hincreases, hvalid, -⟩ := hok tokens htokens
  obtain ⟨hvalid', -⟩ := hfails _ (.inr herror)
  exact ⟨htokens, hincreases, hvalid, herror, hvalid'⟩

end Targeting.Condition
