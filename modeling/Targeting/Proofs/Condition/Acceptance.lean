/-
# What an engine accepts

An engine compiles a source as anybody would. Strict validation then refuses names that it does not
know, and lenient validation refuses nothing more, so what an engine accepts is always the program
of the source. After strict validation a run of the program stays within the names that are known,
whatever the world: it asks the world for properties that are declared, and calls functions that
are built in. Names of date patterns are known too, but they are no questions to the world.
-/

import Targeting.Condition.Guard
import Targeting.Proofs.Condition.Observation
import Targeting.Proofs.Condition.Typing

namespace Targeting.Condition

variable {engine : Engine} {source : String} {program : Program}

/-! ## Compilation by an engine -/

namespace Engine

/-- Lenient validation only compiles. -/
theorem compile_of_lenient (h : engine.mode = .lenient) (source : String) :
    engine.compile source = Condition.compile source := by
  rw [compile, h]
  cases Condition.compile source <;> rfl

/-- What an engine accepts is the program of the source, with names that strict validation knows. -/
theorem compile_eq_ok_iff : engine.compile source = .ok program ↔
    Condition.compile source = .ok program ∧
      (engine.mode = .strict → engine.checkNames program.fields = .ok ()) := by
  rw [compile]
  cases hcompile : Condition.compile source with
  | error err => simp [bind, Except.bind]
  | ok compiled =>
      cases engine.mode with
      | lenient => simp [bind, Except.bind, pure, Except.pure]
      | strict =>
          simp only [bind, Except.bind, pure, Except.pure, Except.ok.injEq, forall_const]
          cases hnames : engine.checkNames compiled.fields with
          | error err =>
              simp only [reduceCtorEq, false_iff]
              rintro ⟨rfl, hok⟩
              rw [hnames] at hok
              cases hok
          | ok _ =>
              simp only [Except.ok.injEq, iff_self_and]
              rintro rfl
              exact hnames

theorem checkNames_eq_ok_iff {fields : Fields} : engine.checkNames fields = .ok () ↔
    (∀ name ∈ fields.methods, Builtin.isName name) ∧
      ∀ name ∈ fields.inputs, engine.declares name := by
  have hmethods : (fields.methods.find? fun name => !Builtin.isName name) = none ↔
      ∀ name ∈ fields.methods, Builtin.isName name := by
    simp [List.find?_eq_none]
  have hinputs : (fields.inputs.find? fun name => !engine.declares name) = none ↔
      ∀ name ∈ fields.inputs, engine.declares name := by
    simp [List.find?_eq_none]
  rw [checkNames, ← hmethods, ← hinputs]
  cases fields.methods.find? fun name => !Builtin.isName name with
  | some name => simp
  | none => cases fields.inputs.find? fun name => !engine.declares name <;> simp

end Engine

/-! ## Runs within the names of a program -/

/-- The names of a program that are questions to the world: not those of date patterns. -/
def Fields.asked (fields : Fields) : Fields :=
  { fields with inputs := fields.inputs.filter fun name => (DateText.constant? name).isNone }

theorem Fields.mem_inputs_asked {fields : Fields} {name : String} :
    name ∈ fields.asked.inputs ↔ name ∈ fields.inputs ∧ DateText.constant? name = none := by
  rw [asked, List.mem_filter, Option.isNone_iff_eq_none]

section Asking

variable {σ τ : Type} {related : σ → τ → Prop} {env : Environment σ} {env' : Environment τ}

/-- A name of a date pattern is read without the world, so environments only have to agree on the
other names. -/
theorem Environment.AgreesOn.access_of_asked {e : Expr}
    (h : env.AgreesOn (Fields.of e).asked related env') :
    (Access.of env).Corresponds related e.uses (.of env') where
  read {name} huse := by
    change Run.Simulates related (readName env name) (readName env' name)
    cases hconstant : DateText.constant? name with
    | some pattern =>
        rw [readName, readName, hconstant]
        exact .pure _
    | none =>
        exact readName_simulates h
          (Fields.mem_inputs_asked.2 ⟨Fields.mem_inputs_of_read huse, hconstant⟩)
  call huse := callFunction_simulates h (Fields.mem_methods_of_called huse)

end Asking

namespace Program

variable {σ : Type}

/-- What a run asks of the world is among the names of the program, and no name of a date pattern
is. -/
theorem within_asked (p : Program) (env : Environment σ) (s : σ) :
    (p.evaluate env.recorded (s, .none)).2.2.Within p.fields.asked := by
  have hagree : env.recorded.AgreesOn p.fields.asked (Recorded p.fields.asked Eq) env.recorded :=
    (Environment.AgreesOn.refl _ env).recorded
  have hnothing : Environment.Inquiry.none.Within p.fields.asked :=
    ⟨fun _ hread => absurd hread List.not_mem_nil, fun _ hcall => absurd hcall List.not_mem_nil⟩
  obtain ⟨-, -, -, hasked⟩ := p.root.evaluateWith_simulates hagree.access_of_asked
    (s, .none) (s, .none) ⟨rfl, rfl, hnothing⟩
  rw [evaluate_eq_verdict, p.root.evaluate_eq_evaluateWith]
  exact hasked

end Program

/-- A name that conditions may read under strict validation: one of the catalog, one that is derived
from a version of the catalog, one of the app's, or one that is declared. -/
def MayRead (declared : List String) (name : String) : Prop :=
  (Catalog.schemaFor? name).isSome ∨ (Catalog.derivedKind? name).isSome ∨
    Catalog.isCustom name ∨ name ∈ declared

theorem mayRead_of_declares {declared : List String} {mode : Mode} {name : String}
    (h : Engine.declares ⟨mode, declared⟩ name) (hconstant : DateText.constant? name = none) :
    MayRead declared name := by
  rw [Engine.declares, hconstant, Catalog.isDeclared, Catalog.kindOf?] at h
  rw [MayRead]
  cases hschema : Catalog.schemaFor? name with
  | some schema => exact .inl rfl
  | none =>
      rw [hschema] at h
      simpa [or_assoc] using h

end Targeting.Condition
