/-
# Compiled conditions

A program is a condition that has been read, checked and simplified. Compilation knows the
types of the catalog's properties and of the built-in functions. Validation can be strict: then
every function has to be built in and every input has to be a declared property.
-/

import Targeting.Condition.Fields
import Targeting.Condition.Optimize
import Targeting.Condition.Parse
import Targeting.Condition.Typing

namespace Targeting.Condition

/-- Read a condition, check it in a scope and simplify it. -/
def prepareTree (scope : Scope) (source : String) : Except Error Expr :=
  if source = "" then .error .empty
  else
    match Expr.parse source with
    | .error error => .error (.malformed error)
    | .ok tree =>
      match tree.check scope with
      | .error error => .error (.mistyped error)
      | .ok () => .ok tree.optimize

/-- The names that a source uses, found without knowledge of properties and functions. -/
def extractFields (source : String) : Except Error Fields :=
  (prepareTree Scope.blank source).map Fields.of

/-- A condition ready to be evaluated. -/
structure Program where
  root : Expr
  deriving Repr, Inhabited

namespace Program

/-- The names that a program uses. -/
def fields (p : Program) : Fields := Fields.of p.root

/-- The truth of a program in a world. -/
def evaluate {σ : Type} (p : Program) (env : Environment σ) (s : σ) : Except Error Bool × σ :=
  match (p.root.evaluate env).run s with
  | (.ok (.bool b), s) => (.ok b, s)
  | (.ok other, s) => (.error (.evaluation (.resultNotBool other.ty)), s)
  | (.error error, s) => (.error (.evaluation error), s)

end Program

/-- Compile a condition. -/
def compile (source : String) : Except Error Program :=
  (prepareTree Scope.catalog source).map Program.mk

/-- How strictly conditions are validated. Strict validation is for writing configurations;
lenient validation is for reading ones that may have been written for a later release. -/
inductive Mode where
  | strict | lenient
  deriving Repr, DecidableEq

/-- Validation of conditions: a mode, and names declared beyond the catalog. -/
structure Engine where
  mode : Mode
  declared : List String
  deriving Repr, DecidableEq

namespace Engine

/-- Whether strict validation knows a name that is read. -/
def declares (engine : Engine) (name : String) : Bool :=
  Catalog.isDeclared name || (DateText.constant? name).isSome || engine.declared.contains name

/-- Refuse names that strict validation does not know; functions come first. -/
def checkNames (engine : Engine) (fields : Fields) : Except Error Unit :=
  match fields.methods.find? fun name => !Builtin.isName name with
  | some name => .error (.unknownFunction name)
  | none =>
    match fields.inputs.find? fun name => !engine.declares name with
    | some name => .error (.unknownVariable name)
    | none => .ok ()

/-- Validate and compile a condition. -/
def compile (engine : Engine) (source : String) : Except Error Program := do
  let program ← Condition.compile source
  match engine.mode with
  | .lenient => pure program
  | .strict =>
    checkNames engine program.fields
    pure program

end Engine

end Targeting.Condition
