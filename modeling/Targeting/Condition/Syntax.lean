/-
# Syntax of conditions

A condition is an expression over property values. This module holds the trees; how they are
written, typed, simplified and evaluated is said elsewhere. Names occur in two positions, as
values and as functions, and a tree lists its uses of names parents first, left to right.
-/

import Targeting.Number.Word

namespace Targeting.Condition

/-- Operators of two operands. -/
inductive BinaryOp where
  | or | and
  | eq | ne | lt | le | gt | ge
  | mem | notMem
  | contains | startsWith | endsWith | matching
  | add | sub | mul | div | rem
  | coalesce
  deriving Repr, DecidableEq

namespace BinaryOp

/-- How the operator is written. -/
def symbol : BinaryOp → String
  | or => "||"
  | and => "&&"
  | eq => "=="
  | ne => "!="
  | lt => "<"
  | le => "<="
  | gt => ">"
  | ge => ">="
  | mem => "in"
  | notMem => "not in"
  | contains => "contains"
  | startsWith => "startsWith"
  | endsWith => "endsWith"
  | matching => "matches"
  | add => "+"
  | sub => "-"
  | mul => "*"
  | div => "/"
  | rem => "%"
  | coalesce => "??"

/-- Binding strength; higher binds tighter. -/
def precedence : BinaryOp → Nat
  | or => 10
  | and => 15
  | eq | ne | lt | le | gt | ge | mem | notMem | contains | startsWith | endsWith | matching => 20
  | add | sub => 30
  | mul | div | rem => 60
  | coalesce => 100

end BinaryOp

/-- Operators of one operand. -/
inductive UnaryOp where
  | not | neg
  deriving Repr, DecidableEq

namespace UnaryOp

/-- How the operator is written. -/
def symbol : UnaryOp → String
  | not => "!"
  | neg => "-"

/-- Binding strength, on the scale of the binary operators. -/
def precedence : UnaryOp → Nat
  | not => 50
  | neg => 90

end UnaryOp

/-- Expressions. -/
inductive Expr where
  | nil
  | bool (b : Bool)
  | int (i : Int64)
  | float (x : Float)
  | text (s : String)
  | list (items : List Expr)
  | ident (name : String)
  | call (name : String) (args : List Expr)
  | unary (op : UnaryOp) (operand : Expr)
  | binary (op : BinaryOp) (left right : Expr)
  | conditional (condition thenCase elseCase : Expr)
  deriving Repr, Inhabited

/-- A name in a condition: read as a value, or called. -/
inductive Use where
  | read (name : String)
  | called (name : String)
  deriving Repr, DecidableEq

namespace Expr

/-- Whether the expression is a single value without parts. -/
def isLiteral : Expr → Bool
  | nil | bool _ | int _ | float _ | text _ => true
  | _ => false

mutual

/-- The uses of names in an expression, parents first. -/
def uses : Expr → List Use
  | list items => usesAll items
  | ident name => [.read name]
  | call name args => .called name :: usesAll args
  | unary _ operand => uses operand
  | binary _ left right => uses left ++ uses right
  | conditional condition thenCase elseCase =>
    uses condition ++ uses thenCase ++ uses elseCase
  | _ => []

/-- The uses of names in expressions, in order. -/
def usesAll : List Expr → List Use
  | [] => []
  | first :: rest => uses first ++ usesAll rest

end

end Expr

end Targeting.Condition
