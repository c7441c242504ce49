/-
# What can be wrong with a condition

A condition may be malformed or mistyped, may use names that strict validation does not know,
or may fail when it is evaluated. Each case keeps its cause; the wording is said once, here.
An internal fault is a failure of the world that a condition asks, not of the condition.
-/

import Targeting.Condition.Builtin
import Targeting.Condition.Token

namespace Targeting.Condition

/-- Names of types, separated by commas. -/
def typeNames (types : List Ty) : String :=
  String.intercalate ", " (types.map Ty.name)

/-- Why an operator does not apply to operands of some types. -/
def mismatch (op : BinaryOp) (left right : Ty) : String :=
  "invalid operation: " ++ op.symbol ++ " (mismatched types " ++ left.name ++ " and " ++
    right.name ++ ")"

/-- What the static check objects to. -/
inductive TypeError where
  | unaryOperand (op : UnaryOp) (operand : Ty)
  | binaryOperands (op : BinaryOp) (left right : Ty)
  | invalidPattern (pattern : String)
  | branchNotBool (actual : Ty)
  | wrongCount (name : String) (signature : Signature) (count : Nat)
  | wrongArgument (name : String) (position : Nat) (expected actual : Ty)
  | resultNotBool (actual : Ty)
  deriving Repr, DecidableEq

/-- Description of a type error. -/
def TypeError.message : TypeError → String
  | unaryOperand op operand =>
    "invalid operation: " ++ op.symbol ++ " (mismatched type " ++ operand.name ++ ")"
  | binaryOperands op left right => mismatch op left right
  | invalidPattern pattern => "invalid regular expression: " ++ pattern
  | branchNotBool actual => "non-bool expression (type " ++ actual.name ++ ") used as condition"
  | wrongCount name signature count =>
    name ++ " called with " ++ toString count ++ " arguments, expected " ++ signature.countText
  | wrongArgument name position expected actual =>
    "cannot use " ++ actual.name ++ " as argument " ++ toString position ++ " of " ++ name ++
      " (expected " ++ expected.name ++ ")"
  | resultNotBool actual => "expected bool, but got " ++ actual.name

/-- What can go wrong while a condition is evaluated. -/
inductive EvalError where
  | integerOverflow
  | divideByZero
  | unaryOperand (op : UnaryOp) (operand : Ty)
  | binaryOperands (op : BinaryOp) (left right : Ty)
  | logicalOperand (op : BinaryOp) (left : Ty)
  | branchNotBool (actual : Ty)
  | invalidPattern (pattern : String)
  | wrongCount (name : String) (signature : Signature) (count : Nat)
  | wrongArguments (name : String) (types : List Ty)
  | unparsableDate (text : String)
  | unavailable (name : String)
  /-- A function of the host or of the history failed. -/
  | host (message : String)
  | resultNotBool (actual : Ty)
  /-- The world broke down instead of answering. -/
  | fault
  deriving Repr, DecidableEq

/-- Description of a failed evaluation. -/
def EvalError.message : EvalError → String
  | integerOverflow => "integer overflow"
  | divideByZero => "integer divide by zero"
  | unaryOperand op operand => "invalid operation: " ++ op.symbol ++ " " ++ operand.name
  | binaryOperands op left right => mismatch op left right
  | logicalOperand op left => "invalid operation: " ++ op.symbol ++ " on " ++ left.name
  | branchNotBool actual => "non-bool value (type " ++ actual.name ++ ") used as condition"
  | invalidPattern pattern => "invalid regular expression: " ++ pattern
  | wrongCount name signature count =>
    name ++ " expects " ++ signature.countText ++ " arguments, got " ++ toString count
  | wrongArguments name types => "invalid arguments for " ++ name ++ "(" ++ typeNames types ++ ")"
  | unparsableDate text => "unable to parse date \"" ++ text ++ "\""
  | unavailable name => "function " ++ name ++ " is not available"
  | host message => message
  | resultNotBool actual => "condition produced " ++ actual.name ++ " instead of bool"
  | fault => "internal evaluator fault"

/-- What can be wrong with a condition. -/
inductive Error where
  | empty
  | malformed (error : SyntaxError)
  | mistyped (error : TypeError)
  | unknownFunction (name : String)
  | unknownVariable (name : String)
  | evaluation (error : EvalError)
  deriving Repr, DecidableEq

/-- Description of an error. -/
def Error.message : Error → String
  | empty =>
    "Condition is empty string (not allowed). Use 'true' or 'false' for minimal condition."
  | malformed error =>
    "invalid condition syntax at offset " ++ toString error.offset ++ ": " ++
      error.problem.message
  | mistyped error => "invalid condition: " ++ error.message
  | unknownFunction name => "Method included in condition which isn't recognized: " ++ name
  | unknownVariable name => "Variable included in condition which isn't recognized: " ++ name
  | evaluation error => "error evaluating condition: " ++ error.message

end Targeting.Condition
