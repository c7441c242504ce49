/-
# Reading conditions

The grammar of conditions by precedence climbing. Binary operators of equal strength group to
the left; a conditional takes whole expressions on both sides and groups to the right.

Nesting is bounded. Every parenthesis, operand of a unary operator, right operand of a binary
operator and branch of a conditional is read one level further in, and there is a fixed number
of levels. So the reader of a level is built from the reader of the next inner one, and the
innermost level refuses to go further; long chains of operators of one level cost no depth.
-/

import Targeting.Condition.Token

namespace Targeting.Condition

namespace Parser

/-- A reader of tokens: a result and the tokens that are left. -/
abbrev Reader (α : Type) := List Token → Except SyntaxError (α × List Token)

/-- The next token. Streams end with a mark that no reader passes. -/
def peek : List Token → Token
  | [] => ⟨.stop, 0⟩
  | next :: _ => next

/-- Refuse at the next token. -/
def fail {α : Type} (problem : SyntaxProblem) (tokens : List Token) : Except SyntaxError α :=
  .error ⟨(peek tokens).offset, problem⟩

/-- Pass over a token of a given kind. -/
def expect (kind : TokenKind) (what : String) : Reader Unit := fun tokens =>
  if (peek tokens).kind = kind then .ok ((), tokens.tail) else fail (.expected what) tokens

/-- The readers of one level of nesting. -/
structure Level where
  /-- A chain of binary operators that bind at least as tightly as given. -/
  chain : Nat → Reader Expr
  /-- A whole expression, conditionals included. -/
  expression : Reader Expr

/-- Go one level further in, if there is one. -/
def enter {α : Type} (inner : Option Level) (read : Level → Reader α) : Reader α := fun tokens =>
  match inner with
  | none => fail .nestedTooDeeply tokens
  | some level => read level tokens

/-- The binary operator at the front, and how many tokens it is written with. -/
def binaryOp? : List Token → Option (BinaryOp × Nat)
  | ⟨.operator (.binary op), _⟩ :: _ => some (op, 1)
  | ⟨.word "not", _⟩ :: ⟨.word "in", _⟩ :: _ => some (.notMem, 2)
  | ⟨.word word, _⟩ :: _ =>
    match word with
    | "or" => some (.or, 1)
    | "and" => some (.and, 1)
    | "in" => some (.mem, 1)
    | "contains" => some (.contains, 1)
    | "startsWith" => some (.startsWith, 1)
    | "endsWith" => some (.endsWith, 1)
    | "matches" => some (.matching, 1)
    | _ => none
  | _ => none

/-- The unary operator at the front. -/
def unaryOp? (tokens : List Token) : Option UnaryOp :=
  match (peek tokens).kind with
  | .operator .bang => some .not
  | .operator (.binary .sub) => some .neg
  | .word "not" => some .not
  | _ => none

/-- Words that are operators and never names. -/
def keywords : List String :=
  ["and", "or", "in", "not", "contains", "startsWith", "endsWith", "matches"]

/-- Apply a unary operator; the negation of a number literal is a number literal. -/
def applyUnary : UnaryOp → Expr → Expr
  | .neg, .int i => .int (-i)
  | .neg, .float x => .float (-x)
  | op, operand => .unary op operand

/-- A whole expression: a chain, and the branches of a conditional if a question mark follows. -/
def expression (inner : Option Level) : Reader Expr :=
  enter inner fun level tokens => do
    let (condition, tokens) ← level.chain 0 tokens
    if (peek tokens).kind = .question then
      let (thenCase, tokens) ← level.expression tokens.tail
      let ((), tokens) ← expect .colon "':' in conditional expression" tokens
      let (elseCase, tokens) ← level.expression tokens
      pure (.conditional condition thenCase elseCase, tokens)
    else pure (condition, tokens)

/-- Expressions separated by commas, up to a closing token. The fuel bounds their number; each
takes at least one token. -/
def items (inner : Option Level) (close : TokenKind) (what : String) :
    Nat → List Expr → Reader (List Expr)
  | 0, _, tokens => fail (.expected what) tokens
  | fuel + 1, before, tokens => do
    let (item, tokens) ← expression inner tokens
    if (peek tokens).kind = .comma then items inner close what fuel (item :: before) tokens.tail
    else
      let ((), tokens) ← expect close what tokens
      pure ((item :: before).reverse, tokens)

/-- A possibly empty list of expressions, up to and with a closing token. -/
def itemList (inner : Option Level) (close : TokenKind) (what : String) : Reader (List Expr) :=
  fun tokens =>
    if (peek tokens).kind = close then .ok ([], tokens.tail)
    else items inner close what tokens.length [] tokens

/-- A literal, a name, a call, a list, or an expression in parentheses. -/
def primary (inner : Option Level) : Reader Expr := fun tokens =>
  match peek tokens with
  | ⟨.int i, _⟩ => .ok (.int i, tokens.tail)
  | ⟨.float x, _⟩ => .ok (.float x, tokens.tail)
  | ⟨.text s, _⟩ => .ok (.text s, tokens.tail)
  | ⟨.leftParen, _⟩ => do
    let (node, tokens) ← expression inner tokens.tail
    let ((), tokens) ← expect .rightParen "')'" tokens
    pure (node, tokens)
  | ⟨.leftBracket, _⟩ => do
    let (members, tokens) ← itemList inner .rightBracket "']'" tokens.tail
    pure (.list members, tokens)
  | ⟨.word name, offset⟩ =>
    if name = "true" then .ok (.bool true, tokens.tail)
    else if name = "false" then .ok (.bool false, tokens.tail)
    else if name = "nil" then .ok (.nil, tokens.tail)
    else if name ∈ keywords then .error ⟨offset, .unexpectedKeyword name⟩
    else if (peek tokens.tail).kind = .leftParen then do
      let (args, tokens) ← itemList inner .rightParen "')'" tokens.tail.tail
      pure (.call name args, tokens)
    else .ok (.ident name, tokens.tail)
  | ⟨.stop, offset⟩ => .error ⟨offset, .unexpectedEnd⟩
  | ⟨_, offset⟩ => .error ⟨offset, .unexpectedToken⟩

/-- A primary, or a unary operator and its operand. -/
def unary (inner : Option Level) : Reader Expr := fun tokens =>
  match unaryOp? tokens with
  | none => primary inner tokens
  | some op => do
    let (operand, tokens) ← enter inner (fun level => level.chain op.precedence) tokens.tail
    pure (applyUnary op operand, tokens)

/-- Extend a chain by operators that bind at least as tightly as `least` and their right
operands. The fuel bounds their number; each takes at least one token. -/
def extend (inner : Option Level) (least : Nat) : Nat → Expr → Reader Expr
  | 0, left, tokens => .ok (left, tokens)
  | fuel + 1, left, tokens =>
    match binaryOp? tokens with
    | none => .ok (left, tokens)
    | some (op, width) =>
      if op.precedence < least then .ok (left, tokens)
      else do
        let (right, tokens) ←
          enter inner (fun level => level.chain (op.precedence + 1)) (tokens.drop width)
        extend inner least fuel (.binary op left right) tokens

/-- A chain of operands and binary operators that bind at least as tightly as `least`. -/
def chain (inner : Option Level) (least : Nat) : Reader Expr := fun tokens => do
  let (first, rest) ← unary inner tokens
  extend inner least rest.length first rest

/-- The readers of a level with a number of further levels inside. -/
def level : Nat → Level
  | 0 => ⟨chain none, expression none⟩
  | depth + 1 => ⟨chain (some (level depth)), expression (some (level depth))⟩

/-- Number of levels of nesting. -/
def maxDepth : Nat := 128

end Parser

/-- Read a condition. -/
def Expr.parse (source : String) : Except SyntaxError Expr := do
  let tokens ← tokenize source
  let (node, rest) ← (Parser.level Parser.maxDepth).expression tokens
  if (Parser.peek rest).kind = .stop then pure node else Parser.fail .trailingToken rest

end Targeting.Condition
