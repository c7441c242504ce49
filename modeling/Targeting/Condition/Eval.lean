/-
# Evaluation

The value of an expression in a world. Operands and arguments are evaluated from left to right,
and the operators that can decide on their left operand do not touch the right one. The names
of date patterns are constants; every other name that is read is a property.
-/

import Targeting.Condition.Call
import Targeting.Condition.Operate

namespace Targeting.Condition

/-- Ask the world for a property. -/
def askProperty {σ : Type} (env : Environment σ) (name : String) : Run σ Value := fun s =>
  match env.property name s with
  | (some v, s) => (.ok v, s)
  | (none, s) => (.error .fault, s)

/-- Value of a name that is read. -/
def readName {σ : Type} (env : Environment σ) (name : String) : Run σ Value :=
  match DateText.constant? name with
  | some pattern => pure (.text pattern)
  | none => askProperty env name

namespace Expr

mutual

/-- Value of an expression. -/
def evaluate {σ : Type} (env : Environment σ) : Expr → Run σ Value
  | nil => pure .nil
  | bool b => pure (.bool b)
  | int i => pure (.int i)
  | float x => pure (.float x)
  | text s => pure (.text s)
  | list items => do
    let values ← evaluateAll env items
    pure (.list values)
  | ident name => readName env name
  | call name args => do
    let values ← evaluateAll env args
    callFunction env name values
  | unary op operand => do
    let value ← evaluate env operand
    liftExcept (op.apply value)
  | binary op left right => do
    let leftValue ← evaluate env left
    match op, leftValue with
    | .or, .bool true => pure (.bool true)
    | .and, .bool false => pure (.bool false)
    | .or, .bool false | .and, .bool true => do
      let rightValue ← evaluate env right
      match rightValue with
      | .bool b => pure (.bool b)
      | other => throw (.binaryOperands op .bool other.ty)
    | .or, _ | .and, _ => throw (.logicalOperand op leftValue.ty)
    | .coalesce, .nil => evaluate env right
    | .coalesce, _ => pure leftValue
    | _, _ => do
      let rightValue ← evaluate env right
      liftExcept (op.apply leftValue rightValue)
  | conditional condition thenCase elseCase => do
    let decision ← evaluate env condition
    match decision with
    | .bool true => evaluate env thenCase
    | .bool false => evaluate env elseCase
    | other => throw (.branchNotBool other.ty)

/-- Values of expressions, in order. -/
def evaluateAll {σ : Type} (env : Environment σ) : List Expr → Run σ (List Value)
  | [] => pure []
  | first :: rest => do
    let value ← evaluate env first
    let values ← evaluateAll env rest
    pure (value :: values)

end

end Expr

end Targeting.Condition
