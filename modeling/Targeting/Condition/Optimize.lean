/-
# Simplification

Constant parts of a condition are computed once, and branches that can never be taken are
removed, so that names in dead branches do not count as inputs of the condition. A part whose
computation fails stays as it is, so that the failure still shows when the condition is
evaluated. One pass from the inside out reaches a form that cannot be simplified further.
-/

import Targeting.Condition.Eval

namespace Targeting.Condition

namespace Expr

/-- The literal of a value. Times and lists have none. -/
def ofValue? : Value → Option Expr
  | .nil => some nil
  | .bool b => some (bool b)
  | .int i => some (int i)
  | .float x => some (float x)
  | .text s => some (text s)
  | .time _ | .list _ => none

/-- Whether an expression is the literal nil. -/
def isNil : Expr → Bool
  | nil => true
  | _ => false

/-- Whether all operands of an operator are literals. The negation of nil is left out. -/
def isConstantOperation : Expr → Bool
  | unary op operand => operand.isLiteral && !(op = .neg && operand.isNil)
  | binary _ left right => left.isLiteral && right.isLiteral
  | _ => false

/-- Replace an operator on literals by the literal of its value, if it has one. -/
def fold (e : Expr) : Expr :=
  if e.isConstantOperation then
    match (e.evaluate Environment.empty).run () with
    | (.ok v, _) => (ofValue? v).getD e
    | (.error _, _) => e
  else e

/-- Whether the left operand alone decides the value of a binary operator. -/
def decides (op : BinaryOp) (left : Expr) : Bool :=
  match op, left with
  | .and, bool false => true
  | .or, bool true => true
  | .coalesce, left => left.isLiteral
  | _, _ => false

mutual

/-- Simplify an expression. -/
def optimize : Expr → Expr
  | list items => list (optimizeAll items)
  | call name args => call name (optimizeAll args)
  | unary op operand => fold (unary op (optimize operand))
  | binary op left right =>
    let left := optimize left
    if op = .coalesce ∧ left.isNil then optimize right
    else if decides op left then left
    else fold (binary op left (optimize right))
  | conditional condition thenCase elseCase =>
    match optimize condition with
    | bool true => optimize thenCase
    | bool false => optimize elseCase
    | condition => conditional condition (optimize thenCase) (optimize elseCase)
  | leaf => leaf

/-- Simplify expressions. -/
def optimizeAll : List Expr → List Expr
  | [] => []
  | first :: rest => optimize first :: optimizeAll rest

end

end Expr

end Targeting.Condition
