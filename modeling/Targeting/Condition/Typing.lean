/-
# Types of conditions

The static check computes the type of an expression from the types of its parts. Names and
functions may be unknown to it; an unknown type fits everywhere. How much is known is a
parameter: without knowledge of names and functions the check still refuses operators on
literals of the wrong type.
-/

import Targeting.Condition.Error
import Targeting.Condition.DateText
import Targeting.Property.Catalog
import Targeting.Regex.Parse

namespace Targeting.Condition

namespace Ty

/-- Type of the values of a property. -/
def ofKind : PropertyKind → Ty
  | .text => text
  | .int => int
  | .float => float
  | .bool => bool
  | .timestamp => time

/-- Types that take part in arithmetic and order. -/
def isNumeric (t : Ty) : Bool := t = int || t = float || t = time

/-- Whether a value of this type can be true or false, as far as is known. -/
def isBoolLike (t : Ty) : Bool := t = bool || t = unknown

/-- Whether a value of this type can be a text, as far as is known. -/
def isTextLike (t : Ty) : Bool := t = text || t = unknown

/-- Whether a value of this type can be a number, as far as is known. -/
def isNumberLike (t : Ty) : Bool := t.isNumeric || t = unknown

/-- Whether a parameter takes an argument of a type. An integer is also a time and a number. -/
def accepts (expected actual : Ty) : Bool :=
  match expected, actual with
  | unknown, _ | _, unknown => true
  | time, int | float, int => true
  | expected, actual => expected = actual

end Ty

/-- Type of the result of a unary operator, if it applies. -/
def UnaryOp.resultTy? (op : UnaryOp) (operand : Ty) : Option Ty :=
  match op with
  | not => if operand.isBoolLike then some .bool else none
  | neg => if operand.isNumberLike then some operand else none

/-- Type of a sum. -/
def sumTy? : Ty → Ty → Option Ty
  | .unknown, _ | _, .unknown => some .unknown
  | .text, .text => some .text
  | .int, .int => some .int
  | .time, .int | .int, .time => some .time
  | .float, .int | .float, .float | .int, .float => some .float
  | _, _ => none

/-- Type of a difference. -/
def differenceTy? : Ty → Ty → Option Ty
  | .unknown, _ | _, .unknown => some .unknown
  | .time, .time | .int, .time | .int, .int => some .int
  | .time, .int => some .time
  | .float, .int | .float, .float | .int, .float => some .float
  | _, _ => none

/-- Type of a product. -/
def productTy? : Ty → Ty → Option Ty
  | .unknown, _ | _, .unknown => some .unknown
  | .int, .int => some .int
  | .float, .int | .float, .float | .int, .float => some .float
  | _, _ => none

/-- Type of a value that stands in for an absent one. -/
def coalesceTy (left right : Ty) : Ty :=
  if left = .nil then right else if left = right then left else .unknown

/-- Type of the result of a binary operator, if it applies. -/
def BinaryOp.resultTy? (op : BinaryOp) (left right : Ty) : Option Ty :=
  let boolIf := fun (fits : Bool) => if fits then some Ty.bool else none
  match op with
  | or | and => boolIf (left.isBoolLike && right.isBoolLike)
  | eq | ne => some .bool
  | lt | le | gt | ge =>
    boolIf (left = .unknown || right = .unknown || (left.isNumeric && right.isNumeric) ||
      (left = .text && right = .text))
  | mem | notMem => boolIf (right = .list || right = .unknown)
  | contains | startsWith | endsWith | matching => boolIf (left.isTextLike && right.isTextLike)
  | add => sumTy? left right
  | sub => differenceTy? left right
  | mul => productTy? left right
  | div =>
    if left.isNumberLike && right.isNumberLike && left ≠ .time && right ≠ .time then some .float
    else none
  | rem =>
    if (left = .int || left = .unknown) && (right = .int || right = .unknown) then some .int
    else none
  | coalesce => some (coalesceTy left right)

/-- What the check knows about names. -/
structure Scope where
  /-- Types of the names that are known. -/
  typeOf? : String → Option Ty
  /-- Whether calls are checked against the signatures of the built-in functions. -/
  checksCalls : Bool

namespace Scope

/-- No knowledge of names or functions. -/
def blank : Scope := ⟨fun _ => none, false⟩

/-- Knowledge of all built-in functions and of some names. -/
def typed (typeOf? : String → Option Ty) : Scope := ⟨typeOf?, true⟩

/-- The properties of the catalog and all built-in functions. -/
def catalog : Scope := typed fun name => (Catalog.kindOf? name).map Ty.ofKind

/-- Type of a name that is read. The names of date patterns are texts. -/
def readTy (scope : Scope) (name : String) : Ty :=
  if (DateText.constant? name).isSome then .text else (scope.typeOf? name).getD .unknown

end Scope

/-- Check arguments against parameters; `position` counts from one. A nil argument always
passes. -/
def checkArgs (name : String) : Nat → List Ty → List Ty → Except TypeError Unit
  | position, expected :: params, actual :: args =>
    if expected.accepts actual || actual = .nil then checkArgs name (position + 1) params args
    else .error (.wrongArgument name position expected actual)
  | _, _, _ => .ok ()

/-- Type of a call, from the types of its arguments. -/
def callTy (scope : Scope) (name : String) (args : List Ty) : Except TypeError Ty :=
  if scope.checksCalls then
    match Builtin.find? name with
    | none => .ok .unknown
    | some function => do
      let signature := function.signature
      if signature.takes args.length then
        checkArgs name 1 signature.params args
        pure signature.returns
      else .error (.wrongCount name signature args.length)
  else .ok .unknown

/-- A pattern that is written out has to be well formed. -/
def checkPattern : BinaryOp → Expr → Except TypeError Unit
  | .matching, .text pattern =>
    if (Regex.parse? pattern).isSome then .ok () else .error (.invalidPattern pattern)
  | _, _ => .ok ()

namespace Expr

mutual

/-- Type of an expression. -/
def infer (scope : Scope) : Expr → Except TypeError Ty
  | nil => .ok .nil
  | bool _ => .ok .bool
  | int _ => .ok .int
  | float _ => .ok .float
  | text _ => .ok .text
  | list items => do
    let _ ← inferAll scope items
    pure .list
  | ident name => .ok (scope.readTy name)
  | call name args => do
    let types ← inferAll scope args
    callTy scope name types
  | unary op operand => do
    let ty ← infer scope operand
    match op.resultTy? ty with
    | some result => pure result
    | none => .error (.unaryOperand op ty)
  | binary op left right => do
    let leftTy ← infer scope left
    let rightTy ← infer scope right
    checkPattern op right
    match op.resultTy? leftTy rightTy with
    | some result => pure result
    | none => .error (.binaryOperands op leftTy rightTy)
  | conditional condition thenCase elseCase => do
    let ty ← infer scope condition
    if ty.isBoolLike then
      let thenTy ← infer scope thenCase
      let elseTy ← infer scope elseCase
      pure (if thenTy = elseTy then thenTy else .unknown)
    else .error (.branchNotBool ty)

/-- Types of expressions, in order. -/
def inferAll (scope : Scope) : List Expr → Except TypeError (List Ty)
  | [] => .ok []
  | first :: rest => do
    let ty ← infer scope first
    let types ← inferAll scope rest
    pure (ty :: types)

end

/-- Check that an expression is a condition, that is, true or false as far as is known. -/
def check (scope : Scope) (e : Expr) : Except TypeError Unit := do
  let ty ← e.infer scope
  if ty.isBoolLike then pure () else .error (.resultNotBool ty)

end Expr

end Targeting.Condition
