/-
# Static types predict values

When the check gives an expression a type, then every value that the expression
evaluates to has this type, or it is nil, or the type is the unknown one, which
promises nothing. Worlds have to keep to the types as well: to those that were
looked up for properties and to those of the signatures of dynamic functions.
They may still answer with nil at any time, fail, or break down.
-/

import Targeting.Proofs.Condition.Typing

namespace Targeting.Condition

open Run

/-- A value is one that a type promises. Nil is among the values of every type, and
the unknown type promises nothing. -/
def Value.Fits (v : Value) (ty : Ty) : Prop :=
  ty = .unknown ∨ v = .nil ∨ v.ty = ty

/-- A world that keeps to the types of properties and of dynamic functions,
whenever it answers at all. -/
structure Environment.Conforms {σ : Type} (env : Environment σ) (typeOf? : String → Option Ty) :
    Prop where
  property : ∀ {name ty}, typeOf? name = some ty →
    ∀ s v, (env.property name s).1 = some v → v.Fits ty
  function : ∀ {name f}, Builtin.find? name = some (.dynamic f) →
    ∀ args s v, (env.function name args s).1 = .value v →
      v.Fits (Builtin.dynamic f).signature.returns

theorem Value.eq_nil_of_fits_nil {v : Value} (h : v.Fits .nil) : v = .nil := by
  rcases h with h | h | h
  · cases h
  · exact h
  · cases v <;> cases h
    rfl

/-- A world that answers from tables keeps to the types of the values in them. -/
theorem Environment.Conforms.ofTables {properties functions : List (String × Value)}
    (hfunctions : ∀ name f v, Builtin.find? name = some (.dynamic f) →
      functions.lookup name = some v → v.Fits (Builtin.dynamic f).signature.returns) :
    (Environment.ofTables properties functions).Conforms
      fun name => (properties.lookup name).map Value.ty where
  property {name ty} hty s v hv := by
    obtain ⟨w, hw, rfl⟩ := Option.map_eq_some_iff.1 hty
    cases hv.symm.trans hw
    exact .inr (.inr rfl)
  function {name f} hfind args s v hv := by
    refine hfunctions name f v hfind ?_
    change ((functions.lookup name).map Reply.value).getD .unprovided = .value v at hv
    cases hlookup : functions.lookup name <;> rw [hlookup] at hv <;> cases hv
    rfl

/-- The type of a conditional promises no more than the types of its branches. -/
theorem Value.Fits.joined_left {v : Value} {thenTy elseTy : Ty} (h : v.Fits thenTy) :
    v.Fits (if thenTy = elseTy then thenTy else .unknown) := by
  split
  · exact h
  · exact .inl rfl

theorem Value.Fits.joined_right {v : Value} {thenTy elseTy : Ty} (h : v.Fits elseTy) :
    v.Fits (if thenTy = elseTy then thenTy else .unknown) := by
  split
  · next heq => exact heq ▸ h
  · exact .inl rfl

namespace UnaryOp

theorem fits_apply {op : UnaryOp} {operand v : Value} {operandTy ty : Ty}
    (hty : op.resultTy? operandTy = some ty) (hoperand : operand.Fits operandTy)
    (h : op.apply operand = .ok v) : v.Fits ty := by
  have hvalue := resultTy?_of_apply h
  rcases hoperand with rfl | rfl | rfl
  · cases op with
    | not =>
        simp only [resultTy?, Option.ite_none_right_eq_some] at hvalue
        exact .inr (.inr ((Option.some.inj hvalue.2).symm.trans (Option.some.inj hty)))
    | neg => exact .inl (Option.some.inj hty).symm
  · cases op <;> cases h
  · exact .inr (.inr (Option.some.inj (hvalue.symm.trans hty)))

end UnaryOp

namespace BinaryOp

variable {op : BinaryOp} {left right v : Value} {leftTy rightTy ty : Ty}

theorem fits_coalesce_left (hne : left ≠ .nil) (hleft : left.Fits leftTy) :
    left.Fits (coalesceTy leftTy rightTy) := by
  rw [coalesceTy]
  split
  · next hnil => exact absurd (Value.eq_nil_of_fits_nil (hnil ▸ hleft)) hne
  · split
    · exact hleft
    · exact .inl rfl

theorem fits_coalesce_right (hright : right.Fits rightTy) :
    right.Fits (coalesceTy leftTy rightTy) := by
  rw [coalesceTy]
  split
  · exact hright
  · split
    · next heq => exact heq ▸ hright
    · exact .inl rfl

/-- A value that the left operand settles on its own fits. -/
theorem fits_decided (hty : op.resultTy? leftTy rightTy = some ty) (hleft : left.Fits leftTy)
    (h : op.decided? left = some (.ok v)) : v.Fits ty := by
  obtain ⟨rfl, hfixed | ⟨rfl, hne⟩⟩ := decided?_eq_ok h
  · exact .inr (.inr (resultTy?_of_fixedTy? hfixed hty).symm)
  · cases hty
    exact fits_coalesce_left hne hleft

/-- A sum, a difference or a product of which one operand is of unknown type is of
unknown type itself. Otherwise the types of the operands are the static ones: nil
has no sums. -/
theorem fits_combine (hty : op.resultTy? leftTy rightTy = some ty) (hleft : left.Fits leftTy)
    (hright : right.Fits rightTy) (h : op.combine left right = .ok v) : v.Fits ty := by
  cases hop : op.fixedTy? with
  | some fixed =>
      obtain rfl := resultTy?_of_fixedTy? hop hty
      exact .inr (.inr (ty_combine_of_fixedTy? hop h))
  | none =>
      by_cases hcoalesce : op = coalesce
      · subst hcoalesce
        cases hty
        cases h
        exact fits_coalesce_right hright
      · have hvalue := resultTy?_of_combine hop hcoalesce h
        obtain ⟨hleftnil, hrightnil⟩ := ne_nil_of_resultTy? hop hcoalesce hvalue
        have hunknown (hsome : leftTy = .unknown ∨ rightTy = .unknown) : v.Fits ty :=
          .inl (Option.some.inj (hty.symm.trans (resultTy?_of_unknown hop hcoalesce hsome)))
        rcases hleft with hleft | hleft | rfl
        · exact hunknown (.inl hleft)
        · exact absurd hleft hleftnil
        rcases hright with hright | hright | rfl
        · exact hunknown (.inr hright)
        · exact absurd hright hrightnil
        · exact .inr (.inr (Option.some.inj (hvalue.symm.trans hty)))

end BinaryOp

section Worlds

variable {σ : Type} {env : Environment σ} {typeOf? : String → Option Ty}

theorem Environment.Conforms.readName (h : env.Conforms typeOf?) (name : String) :
    Ends (readName env name) (·.Fits ((Scope.typed typeOf?).readTy name)) (fun _ => True) := by
  refine ends_readName (fun pattern hpattern => ?_) (fun hproperty s => ?_)
  · rw [Scope.readTy_of_constant hpattern]
    exact .inr (.inr rfl)
  · refine .of_ok fun v hv => ?_
    have hanswer := eq_some_of_propertyResult hv
    rw [Scope.readTy_typed_of_property hproperty]
    cases hlookup : typeOf? name with
    | none => exact .inl rfl
    | some ty => exact h.property hlookup s v hanswer

theorem Environment.Conforms.callFunction (h : env.Conforms typeOf?) {name : String}
    {types : List Ty} {args : List Value} {ty : Ty} (hlength : args.length = types.length)
    (hty : callTy (.typed typeOf?) name types = .ok ty) :
    Ends (callFunction env name args) (·.Fits ty) (fun _ => True) := by
  have hcall := callTy_typed_ok hty
  cases hfind : Builtin.find? name with
  | none =>
      rw [hfind] at hcall
      exact (Ends.trivial _).mono (fun _ _ => .inl hcall) fun _ => id
  | some function =>
      rw [hfind] at hcall
      obtain ⟨htakes, rfl⟩ := hcall
      refine ends_callFunction hfind (hlength ▸ htakes) ?_ ?_
      · rintro f rfl
        refine (f.ends_call env name args).mono (fun v hv => ?_) fun _ _ => True.intro
        exact hv.imp_right .inr
      · rintro f rfl s
        exact .of_ok fun v hv => h.function hfind args s v (Reply.eq_value_of_result hv)

namespace Expr

/-- Evaluation ends in a value that fits the type of the expression, if it does not
fail. -/
theorem ends_fits (h : env.Conforms typeOf?) {e : Expr} {ty : Ty}
    (hty : e.infer (.typed typeOf?) = .ok ty) :
    Ends (e.evaluateWith (.of env)) (·.Fits ty) (fun _ => True) := by
  induction e using Expr.induction generalizing ty with
  | literal e v hliteral =>
      rw [infer_of_literalValue? hliteral] at hty
      cases hty
      rw [evaluateWith_of_literalValue? _ hliteral]
      exact .pure (.inr (.inr rfl))
  | list items ih =>
      obtain ⟨-, rfl⟩ := infer_list_ok hty
      exact ends_list (fun item _ => .trivial _) fun _ => .inr (.inr rfl)
  | ident name =>
      cases hty
      exact h.readName name
  | call name args ih =>
      obtain ⟨types, hlength, -, hcall⟩ := infer_call_ok hty
      refine ends_call (fun arg _ => .trivial _) fun values hvalues => ?_
      exact h.callFunction (hvalues.trans hlength.symm) hcall
  | unary op operand ih =>
      obtain ⟨operandTy, hoperand, hop⟩ := infer_unary_ok hty
      refine ends_unary (ih hoperand) fun v hv => ?_
      exact .of_ok fun result hresult => UnaryOp.fits_apply hop hv hresult
  | binary op left right ihleft ihright =>
      obtain ⟨leftTy, rightTy, hleft, hright, -, hop⟩ := infer_binary_ok hty
      refine ends_binary (ihleft hleft) (ihright hright) ?_ ?_
      · rintro a result ha hdecided
        refine .of_ok ?_
        rintro v rfl
        exact BinaryOp.fits_decided hop ha hdecided
      · intro a b ha hb _
        exact .of_ok fun v hv => BinaryOp.fits_combine hop ha hb hv
  | conditional condition thenCase elseCase ihcond ihthen ihelse =>
      obtain ⟨conditionTy, thenTy, elseTy, hcond, hthen, helse, -, rfl⟩ :=
        infer_conditional_ok hty
      refine ends_conditional (ihcond hcond) ?_ ?_ fun _ _ _ => True.intro
      · exact (ihthen hthen).mono (fun _ hv => hv.joined_left) fun _ => id
      · exact (ihelse helse).mono (fun _ hv => hv.joined_right) fun _ => id

/-- Static types predict values: in a world that keeps to the types of properties
and functions, an expression of a known type evaluates to nil or to a value of
exactly that type, if it evaluates to a value at all. -/
theorem infer_predicts_value (henv : env.Conforms typeOf?) {e : Expr} {ty : Ty}
    (hty : e.infer (.typed typeOf?) = .ok ty) {s s' : σ} {v : Value}
    (hrun : (e.evaluate env).run s = (.ok v, s')) :
    ty = .unknown ∨ v = .nil ∨ v.ty = ty := by
  have hends := ends_fits henv hty s
  rw [← e.evaluate_eq_evaluateWith, hrun] at hends
  exact hends

/-- A time plus a count of events is a time. -/
theorem infer_predicts_time :
    let env := Environment.ofTables [("app_install_date", .time 86400000)] [("eventCount", .int 2)]
    let e := Expr.binary .add (.ident "app_install_date") (.call "eventCount" [.text "open"])
    (e.evaluate env).run () = (.ok (.time 86400002), ()) ∧
      (Ty.time = .unknown ∨ Value.time 86400002 = .nil ∨ (Value.time 86400002).ty = .time) := by
  intro env e
  have hrun : (e.evaluate env).run () = (.ok (.time 86400002), ()) := rfl
  have henv : env.Conforms fun name =>
      ([("app_install_date", Value.time 86400000)].lookup name).map Value.ty := by
    refine .ofTables fun name f v hfind hlookup => ?_
    rw [List.lookup_cons] at hlookup
    split at hlookup
    · next hname =>
        obtain rfl : name = "eventCount" := eq_of_beq hname
        cases hfind
        cases hlookup
        exact .inr (.inr rfl)
    · cases hlookup
  exact ⟨hrun, infer_predicts_value henv rfl hrun⟩

end Expr

end Worlds

end Targeting.Condition
