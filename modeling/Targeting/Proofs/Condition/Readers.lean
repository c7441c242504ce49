/-
# What readers keep to

Tokens end with the mark of their end, and no reader passes it. So what a reader leaves over of its
tokens ends with the mark as well, and there is always a next token to look at. When a reader
refuses, it does so at one of its tokens.

`Leaves` says this of a result together with what holds of the value that was read; `Keeps` says it
of a reader, whatever the tokens. Both go along with sequencing.
-/

import Targeting.Proofs.Condition.Grammar

namespace Targeting.Condition

namespace Parser

/-- Tokens that end with the mark of their end. -/
def IsStream (tokens : List Token) : Prop := ∃ last ∈ tokens.getLast?, last.kind = .stop

variable {α β : Type} {tokens rest : List Token} {accepts : α → Prop} {accepts' : β → Prop}

/-- The outcome of reading tokens: a value of some kind and the tokens from some point on, or a
refusal at one of the tokens. -/
def Leaves (accepts : α → Prop) (tokens : List Token) :
    Except SyntaxError (α × List Token) → Prop
  | .ok (a, rest) => accepts a ∧ rest <:+ tokens ∧ IsStream rest
  | .error err => ∃ token ∈ tokens, token.offset = err.offset

/-- A reader that reads values of some kind, keeps in front of the mark of the end, and refuses at
tokens only. -/
def Keeps (accepts : α → Prop) (read : Reader α) : Prop :=
  ∀ tokens, IsStream tokens → Leaves accepts tokens (read tokens)

/-! ## Streams -/

namespace IsStream

theorem exists_cons (h : IsStream tokens) : ∃ token rest, tokens = token :: rest := by
  obtain ⟨last, hlast, -⟩ := h
  cases tokens with
  | nil => cases hlast
  | cons token rest => exact ⟨token, rest, rfl⟩

theorem peek_mem (h : IsStream tokens) : peek tokens ∈ tokens := by
  obtain ⟨token, rest, rfl⟩ := h.exists_cons
  exact List.mem_cons_self

/-- After a token that is not the mark of the end there is a stream again. -/
theorem of_cons {token : Token} (h : IsStream (token :: rest)) (hkind : token.kind ≠ .stop) :
    IsStream rest := by
  obtain ⟨last, hlast, hstop⟩ := h
  cases rest with
  | nil =>
      cases hlast
      exact absurd hstop hkind
  | cons next rest => exact ⟨last, by rwa [List.getLast?_cons_cons] at hlast, hstop⟩

theorem tail (h : IsStream tokens) (hkind : (peek tokens).kind ≠ .stop) :
    IsStream tokens.tail := by
  obtain ⟨token, rest, rfl⟩ := h.exists_cons
  exact h.of_cons hkind

/-- Operators are not written with the mark of the end. -/
theorem drop_of_binaryOp? (h : IsStream tokens) {op : BinaryOp} {width : Nat}
    (hop : binaryOp? tokens = some (op, width)) : IsStream (tokens.drop width) := by
  unfold binaryOp? at hop
  split at hop
  · cases hop
    exact h.of_cons nofun
  · cases hop
    exact (h.of_cons nofun).of_cons nofun
  · split at hop <;> cases hop
    all_goals exact h.of_cons nofun
  · cases hop

theorem cons (h : IsStream rest) (token : Token) : IsStream (token :: rest) := by
  obtain ⟨last, hlast, hstop⟩ := h
  exact ⟨last, by rw [List.getLast?_cons, hlast]; rfl, hstop⟩

end IsStream

theorem isStream_of_scan {text : List Char} {skip offset : Nat}
    (h : Lexer.scan skip offset text = .ok tokens) : IsStream tokens := by
  fun_induction Lexer.scan skip offset text generalizing tokens with
  | case1 _ offset =>
      cases h
      exact ⟨⟨.stop, offset⟩, rfl, rfl⟩
  | case2 _ _ _ _ ih => exact ih h
  | case3 _ _ _ _ ih => exact ih h
  | case4 => cases h
  | case5 => cases h
  | case6 _ _ _ _ _ _ _ _ hscan ih =>
      cases h
      exact (ih hscan).cons _

/-- The lexer marks the end of its tokens. -/
theorem isStream_of_tokenize {source : String} (h : tokenize source = .ok tokens) :
    IsStream tokens :=
  isStream_of_scan h

theorem ne_stop_of_unaryOp? {op : UnaryOp} (hop : unaryOp? tokens = some op) :
    (peek tokens).kind ≠ .stop := by
  intro hstop
  rw [unaryOp?, hstop] at hop
  cases hop

/-! ## Outcomes -/

namespace Leaves

variable {result : Except SyntaxError (α × List Token)}

theorem mono {other : α → Prop} (h : Leaves accepts tokens result)
    (haccepts : ∀ a, accepts a → other a) : Leaves other tokens result := by
  cases result with
  | ok read => exact ⟨haccepts _ h.1, h.2⟩
  | error err => exact h

/-- What is left over of the tokens after some point is left over of all of them. -/
theorem of_suffix (h : Leaves accepts rest result) (hrest : rest <:+ tokens) :
    Leaves accepts tokens result := by
  cases result with
  | ok read => exact ⟨h.1, h.2.1.trans hrest, h.2.2⟩
  | error err =>
      obtain ⟨token, htoken, hoffset⟩ := h
      exact ⟨token, hrest.subset htoken, hoffset⟩

/-- The next step goes on with the tokens that the first one left over. -/
theorem bind {next : α × List Token → Except SyntaxError (β × List Token)}
    (h : Leaves accepts tokens result)
    (hnext : ∀ a rest, accepts a → IsStream rest → Leaves accepts' rest (next (a, rest))) :
    Leaves accepts' tokens (result >>= next) := by
  cases result with
  | ok read => exact (hnext _ _ h.1 h.2.2).of_suffix h.2.1
  | error err => exact h

theorem fail (h : IsStream tokens) (problem : SyntaxProblem) :
    Leaves accepts tokens (Parser.fail problem tokens) :=
  ⟨peek tokens, h.peek_mem, rfl⟩

theorem pure {a : α} (ha : accepts a) (h : IsStream tokens) :
    Leaves accepts tokens (.ok (a, tokens)) :=
  ⟨ha, List.suffix_rfl, h⟩

/-- Passing over a token that is not the mark of the end. -/
theorem pass {a : α} (ha : accepts a) (h : IsStream tokens) (hkind : (peek tokens).kind ≠ .stop) :
    Leaves accepts tokens (.ok (a, tokens.tail)) :=
  ⟨ha, List.tail_suffix tokens, h.tail hkind⟩

end Leaves

theorem keeps_expect {kind : TokenKind} (hkind : kind ≠ .stop) (what : String) :
    Keeps (fun _ => True) (expect kind what) := by
  intro tokens htokens
  rw [expect]
  split
  case isTrue heq => exact .pass trivial htokens (heq ▸ hkind)
  case isFalse => exact .fail htokens _

end Parser

end Targeting.Condition
