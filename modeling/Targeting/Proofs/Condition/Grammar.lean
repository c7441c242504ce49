/-
# Operators, atoms and levels

What chains of operators and whole expressions have in common when they are read:
the ways to write an operator, the operands that are a single token, and the
levels of nesting as a number.
-/

import Targeting.Condition.Parse
import Targeting.Proofs.Condition.Spelling

namespace Targeting.Condition

open Targeting.Condition.Parser

@[simp]
theorem peek_cons (token : Token) (rest : List Token) : peek (token :: rest) = token := rfl

/-! ## Operators -/

/-- The ways to write a binary operator, as tokens. -/
def BinaryOp.spellings : BinaryOp → List (List TokenKind)
  | or => [[.operator (.binary .or)], [.word "or"]]
  | and => [[.operator (.binary .and)], [.word "and"]]
  | mem => [[.word "in"]]
  | notMem => [[.word "not", .word "in"]]
  | contains => [[.word "contains"]]
  | startsWith => [[.word "startsWith"]]
  | endsWith => [[.word "endsWith"]]
  | matching => [[.word "matches"]]
  | op => [[.operator (.binary op)]]

/-- The ways to write a unary operator. -/
def UnaryOp.spellings : UnaryOp → List TokenKind
  | not => [.operator .bang, .word "not"]
  | neg => [.operator (.binary .sub)]

theorem exists_spells_operator {op : Operator} (hop : op ∈ Lexer.operators.map Prod.snd) :
    ∃ lexeme, Spells (.operator op) lexeme := by
  obtain ⟨⟨symbol, op⟩, hmem, rfl⟩ := List.mem_map.1 hop
  exact ⟨symbol, .operator hmem⟩

theorem exists_spells_word {name : String} (hname : IsWord name.toList) :
    ∃ lexeme, Spells (.word name) lexeme :=
  ⟨_, .name hname⟩

/-- The lexer knows every way to write a binary operator. -/
theorem BinaryOp.exists_spells {op : BinaryOp} {symbol : List TokenKind}
    (hop : symbol ∈ op.spellings) : ∀ kind ∈ symbol, ∃ lexeme, Spells kind lexeme := by
  cases op <;> simp only [spellings, List.mem_cons, List.not_mem_nil, or_false] at hop
  case or | and =>
    rcases hop with rfl | rfl
    · simpa using exists_spells_operator (by decide)
    · simpa using exists_spells_word (by decide)
  case notMem =>
    subst hop
    simpa using ⟨exists_spells_word (by decide), exists_spells_word (by decide)⟩
  case mem | contains | startsWith | endsWith | matching =>
    subst hop
    simpa using exists_spells_word (by decide)
  all_goals
    subst hop
    simpa using exists_spells_operator (by decide)

theorem UnaryOp.exists_spells {op : UnaryOp} {sign : TokenKind} (hop : sign ∈ op.spellings) :
    ∃ lexeme, Spells sign lexeme := by
  cases op <;> simp only [spellings, List.mem_cons, List.not_mem_nil, or_false] at hop
  · rcases hop with rfl | rfl
    · exact exists_spells_operator (by decide)
    · exact exists_spells_word (by decide)
  · subst hop
    exact exists_spells_operator (by decide)

theorem binaryOp?_append {op : BinaryOp} {tokens : List Token}
    (hop : tokens.map Token.kind ∈ op.spellings) (rest : List Token) :
    binaryOp? (tokens ++ rest) = some (op, tokens.length) := by
  rcases tokens with _ | ⟨⟨kind, offset⟩, _ | ⟨⟨kind', offset'⟩, tail⟩⟩
  · cases op <;> simp [BinaryOp.spellings] at hop
  · cases op <;> simp [BinaryOp.spellings] at hop <;> first
      | (subst hop; simp [binaryOp?])
      | (rcases hop with rfl | rfl <;> simp [binaryOp?])
  · cases op <;> simp [BinaryOp.spellings] at hop
    obtain ⟨rfl, rfl, rfl⟩ := hop
    simp [binaryOp?]

theorem unaryOp?_cons {op : UnaryOp} {token : Token} (hop : token.kind ∈ op.spellings)
    (rest : List Token) : unaryOp? (token :: rest) = some op := by
  cases op <;> simp [UnaryOp.spellings] at hop
  · rcases hop with hkind | hkind <;> simp [unaryOp?, hkind]
  · simp [unaryOp?, hop]

/-- Every way to write a binary operator starts with a token that is no parenthesis. -/
theorem kind_ne_leftParen_of_spelling {op : BinaryOp} {tokens : List Token}
    (hop : tokens.map Token.kind ∈ op.spellings) (rest : List Token) :
    (peek (tokens ++ rest)).kind ≠ .leftParen := by
  rcases tokens with _ | ⟨⟨kind, offset⟩, tail⟩
  · cases op <;> simp [BinaryOp.spellings] at hop
  · rintro rfl
    cases op <;> simp [BinaryOp.spellings] at hop

/-! ## Atoms -/

/-- A word that is a name: neither an operator nor a literal. -/
def IsName (name : String) : Prop :=
  IsWord name.toList ∧ name ∉ keywords ∧ name ∉ ["true", "false", "nil"]

instance (name : String) : Decidable (IsName name) := inferInstanceAs (Decidable (_ ∧ _))

/-- The operands that are a single token: literals and names. -/
inductive Atom : TokenKind → Expr → Prop
  | nil : Atom (.word "nil") .nil
  | true : Atom (.word "true") (.bool true)
  | false : Atom (.word "false") (.bool false)
  | int (i : Int64) : Atom (.int i) (.int i)
  | float (x : Float) : Atom (.float x) (.float x)
  | text (s : String) : Atom (.text s) (.text s)
  | ident {name : String} : IsName name → Atom (.word name) (.ident name)

theorem Atom.unaryOp?_eq_none {kind : TokenKind} {atom : Expr} (h : Atom kind atom)
    (offset : Nat) (rest : List Token) : unaryOp? (⟨kind, offset⟩ :: rest) = none := by
  cases h with
  | @ident name hname =>
      have hnot : name ≠ "not" := by
        rintro rfl
        exact hname.2.1 (by decide)
      simp [unaryOp?, hnot]
  | _ => rfl

theorem primary_atom {kind : TokenKind} {atom : Expr} (h : Atom kind atom) (inner : Option Level)
    (offset : Nat) {rest : List Token} (hrest : (peek rest).kind ≠ .leftParen) :
    primary inner (⟨kind, offset⟩ :: rest) = .ok (atom, rest) := by
  cases h with
  | @ident name hname =>
      obtain ⟨-, hkeyword, hliteral⟩ := hname
      simp only [List.mem_cons, List.not_mem_nil, or_false, not_or] at hliteral
      simp [primary, hkeyword, hliteral, hrest]
  | _ => simp [primary]

theorem unary_atom {kind : TokenKind} {atom : Expr} (h : Atom kind atom) (inner : Option Level)
    (offset : Nat) {rest : List Token} (hrest : (peek rest).kind ≠ .leftParen) :
    unary inner (⟨kind, offset⟩ :: rest) = .ok (atom, rest) := by
  rw [unary, h.unaryOp?_eq_none]
  exact primary_atom h inner offset hrest

/-! ## Levels -/

/-- The next inner level where a number of levels is left. -/
def within : Nat → Option Level
  | 0 => none
  | depth + 1 => some (level depth)

theorem level_eq (depth : Nat) :
    level depth = ⟨chain (within depth), expression (within depth)⟩ := by
  cases depth <;> rfl

theorem enter_within {α : Type} (depth : Nat) (read : Level → Reader α) (tokens : List Token) :
    enter (within (depth + 1)) read tokens =
      read ⟨chain (within depth), expression (within depth)⟩ tokens := by
  rw [← level_eq]
  rfl

/-- A chain ends where no operator follows. -/
theorem extend_of_binaryOp?_eq_none (inner : Option Level) (least fuel : Nat) (left : Expr)
    {tokens : List Token} (hnone : binaryOp? tokens = none) :
    extend inner least fuel left tokens = .ok (left, tokens) := by
  cases fuel with
  | zero => rfl
  | succ fuel => rw [extend, hnone]

/-- A chain that no question mark follows is an expression of the level around it. -/
theorem expression_of_chain {depth : Nat} {tokens rest : List Token} {e : Expr}
    (hchain : chain (within depth) 0 tokens = .ok (e, rest))
    (hrest : (peek rest).kind ≠ .question) :
    expression (within (depth + 1)) tokens = .ok (e, rest) := by
  rw [expression, enter_within]
  simp only [hchain]
  exact if_neg hrest

/-- A source is read as the expression that its tokens are read as, up to their end. -/
theorem parse_of_expression {source : String} {tokens rest : List Token} {e : Expr}
    (htokens : tokenize source = .ok tokens)
    (hread : expression (within maxDepth) tokens = .ok (e, rest))
    (hend : (peek rest).kind = .stop) : Expr.parse source = .ok e := by
  rw [Expr.parse, htokens, level_eq]
  simp only [bind, Except.bind, hread]
  exact if_pos hend

end Targeting.Condition
