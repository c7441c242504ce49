/-
# Conditions of a configuration

A condition as a configuration holds it: its source, and later its program. Preparing a
condition validates it. A source that a strict engine refuses is an error; one that a lenient
engine refuses degrades the condition, which from then on has no source, is false in every
world and keeps the reason. A program is remembered once it has been compiled. In JSON a
condition is only its source.
-/

import Targeting.Condition.Program
import Targeting.Json.Record

namespace Targeting

/-- A condition. -/
structure Condition where
  /-- Source text; empty once the condition is degraded. -/
  source : String
  /-- Why the condition is degraded, if it is. -/
  degraded : Option Condition.Error
  /-- The result of compiling the source, once it is known. -/
  compiled : Option (Except Condition.Error Condition.Program)
  deriving Repr

namespace Condition

/-- A condition that has not been looked at. -/
def ofSource (source : String) : Condition := ⟨source, none, none⟩

/-- A condition that is false for a reason. -/
def ofReason (reason : Error) : Condition := ⟨"", some reason, none⟩

instance : Inhabited Condition := ⟨ofSource ""⟩

/-- Two conditions are the same if their sources and reasons are; what is remembered of them
does not count. -/
instance : BEq Condition := ⟨fun a b => a.source == b.source && a.degraded == b.degraded⟩

/-- The program of a condition. -/
def program (c : Condition) : Except Error Program :=
  match c.degraded with
  | some reason => .error reason
  | none => c.compiled.getD (compile c.source)

/-- The condition with its program remembered. -/
def remember (c : Condition) : Condition :=
  match c.degraded with
  | some _ => c
  | none => { c with compiled := some (c.compiled.getD (compile c.source)) }

/-- Remember a program unless one is remembered already. -/
def withProgram (c : Condition) (program : Program) : Condition :=
  { c with compiled := some (c.compiled.getD (.ok program)) }

/-- The names that a condition uses. -/
def fields (c : Condition) : Except Error Fields :=
  c.program.map Program.fields

/-- The truth of a condition in a world. -/
def evaluate {σ : Type} (c : Condition) (env : Environment σ) (s : σ) : Except Error Bool × σ :=
  match c.degraded with
  | some _ => (.ok false, s)
  | none =>
    match c.program with
    | .ok program => program.evaluate env s
    | .error error => (.error error, s)

/-- Validate a condition. Answers the condition as it is afterwards, and an error in strict mode
if it is not valid; a degraded condition stays as it is. -/
def prepare (engine : Engine) (c : Condition) : Except Error Unit × Condition :=
  match c.degraded with
  | some _ => (.ok (), c)
  | none =>
    match engine.compile c.source with
    | .ok program => (.ok (), c.withProgram program)
    | .error error =>
      match engine.mode with
      | .strict => (.error error, c)
      | .lenient => (.ok (), ofReason error)

/-- A valid condition from its source; invalid sources are refused in either mode. -/
def Engine.condition (engine : Engine) (source : String) : Except Error Condition :=
  (engine.compile source).map fun program => (ofSource source).withProgram program

/-- JSON text of a condition. -/
def json (c : Condition) : String := Text.Quoted.json c.source

/-- The condition of a JSON text. -/
def ofJson? (bytes : List UInt8) : Option Condition :=
  ((Json.Written.parse? bytes).bind Json.Written.text?).map ofSource

end Condition

end Targeting
