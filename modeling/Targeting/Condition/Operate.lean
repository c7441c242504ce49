/-
# Operators on values

What the operators compute once their operands are known. Integer arithmetic is exact or
fails; integers and times mix in sums and differences; all other mixtures of numbers are
computed in floating point. The operators that may leave their right operand out are not
decided here.
-/

import Targeting.Condition.Error
import Targeting.Regex.Match
import Targeting.Regex.Parse

namespace Targeting.Condition

/-- Apply a unary operator. -/
def UnaryOp.apply (op : UnaryOp) (operand : Value) : Except EvalError Value :=
  match op, operand with
  | not, .bool b => .ok (.bool !b)
  | neg, .int i =>
    match Word.neg? i with
    | some negated => .ok (.int negated)
    | none => .error .integerOverflow
  | neg, .float x => .ok (.float (-x))
  | op, operand => .error (.unaryOperand op operand.ty)

/-- The floating-point numbers of two plain numbers. Times are no plain numbers. -/
def plainNumbers? : Value → Value → Option (Float × Float)
  | .int a, .int b => some (Binary64.ofWord a, Binary64.ofWord b)
  | .int a, .float b => some (Binary64.ofWord a, b)
  | .float a, .int b => some (a, Binary64.ofWord b)
  | .float a, .float b => some (a, b)
  | _, _ => none

/-- Whether a value is among the members of a list; nil has no members. -/
def isMember? (item : Value) : Value → Option Bool
  | .list items => some (items.any fun other => other.looselyEquals item)
  | .nil => some false
  | _ => none

/-- Whether an order is one that a comparison asks for. -/
def BinaryOp.admits (op : BinaryOp) (order : Ordering) : Bool :=
  match op with
  | lt => order = .lt
  | le => order ≠ .gt
  | gt => order = .gt
  | _ => order ≠ .lt

/-- Apply a test on texts. -/
def BinaryOp.testTexts (op : BinaryOp) (left right : String) : Except EvalError Bool :=
  match op with
  | contains => .ok (Split.contains right.toList left.toList)
  | startsWith => .ok (Split.afterStart? right.toList left.toList).isSome
  | endsWith => .ok (Split.endsWith right.toList left.toList)
  | _ =>
    match Regex.parse? right with
    | some pattern => .ok (pattern.occursIn left)
    | none => .error (.invalidPattern right)

/-- The exact result of an integer operation, or overflow. -/
def exactly (wrap : Int64 → Value) : Option Int64 → Except EvalError Value
  | some i => .ok (wrap i)
  | none => .error .integerOverflow

/-- Apply a binary operator to both of its operands. -/
def BinaryOp.apply (op : BinaryOp) (left right : Value) : Except EvalError Value :=
  let mismatched : EvalError := .binaryOperands op left.ty right.ty
  let inFloats := fun (compute : Float → Float → Float) =>
    match plainNumbers? left right with
    | some (a, b) => Except.ok (Value.float (compute a b))
    | none => .error mismatched
  match op with
  | eq => .ok (.bool (left.looselyEquals right))
  | ne => .ok (.bool !(left.looselyEquals right))
  | lt | le | gt | ge =>
    match left.compare? right with
    | some order => .ok (.bool (op.admits order))
    | none => .error mismatched
  | mem | notMem =>
    match isMember? left right with
    | some found => .ok (.bool (found == (op == mem)))
    | none => .error mismatched
  | contains | startsWith | endsWith | matching =>
    match left, right with
    | .text a, .text b =>
      match op.testTexts a b with
      | .ok found => .ok (.bool found)
      | .error error => .error error
    | _, _ => .error mismatched
  | add =>
    match left, right with
    | .text a, .text b => .ok (.text (a ++ b))
    | .int a, .int b => exactly .int (Word.add? a b)
    | .time t, .int d | .int d, .time t => exactly .time (Word.add? t d)
    | _, _ => inFloats (· + ·)
  | sub =>
    match left, right with
    | .time a, .time b | .int a, .time b | .int a, .int b => exactly .int (Word.sub? a b)
    | .time t, .int d => exactly .time (Word.sub? t d)
    | _, _ => inFloats (· - ·)
  | mul =>
    match left, right with
    | .int a, .int b => exactly .int (Word.mul? a b)
    | _, _ => inFloats (· * ·)
  | div => inFloats (· / ·)
  | rem =>
    match left, right with
    | .int a, .int b =>
      match Word.rem? a b with
      | some i => .ok (.int i)
      | none => .error .divideByZero
    | _, _ => .error mismatched
  | or | and | coalesce => .error mismatched

end Targeting.Condition
