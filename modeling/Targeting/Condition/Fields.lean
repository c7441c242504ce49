/-
# Names in a condition

The names that an expression uses, as sorted sets: names in call position, names the condition
reads as inputs, and all of them. A call of a built-in function is no input; a call of any
other function is, because what it answers comes from outside.
-/

import Targeting.Condition.Builtin
import Targeting.Condition.Syntax
import Targeting.Text.NameSet

namespace Targeting.Condition

/-- The names that a condition uses. -/
structure Fields where
  identifiers : List String
  inputs : List String
  methods : List String
  deriving Repr, DecidableEq

namespace Use

/-- The name that is used. -/
def name : Use → String
  | read name | called name => name

/-- Whether the name is called. -/
def isCall : Use → Bool
  | called _ => true
  | read _ => false

/-- Whether the name is an input of the condition. -/
def isInput : Use → Bool
  | read _ => true
  | called name => !Builtin.isName name

end Use

/-- The names of an expression. -/
def Fields.of (e : Expr) : Fields :=
  let names := fun (uses : List Use) => NameSet.ofList (uses.map Use.name)
  ⟨names e.uses, names (e.uses.filter Use.isInput), names (e.uses.filter Use.isCall)⟩

end Targeting.Condition
