/-
# The static check, taken apart

Three things are needed of the static check. An expression that has a type has
parts with types, and its own type comes from theirs. The type of an operator's
result either is fixed by the operator or depends on the operands, and in both
cases an operator that computes a value computes one of that type. And what a
static function answers has the type that its signature says, as far as it says
one.
-/

import Targeting.Condition.Typing
import Targeting.Proofs.Condition.Evaluation

namespace Targeting.Condition

/-- A sequence of checks that succeeds has succeeded in both of its parts. -/
theorem exists_of_bind_eq_ok {ε α β : Type} {first : Except ε α} {next : α → Except ε β} {b : β}
    (h : first >>= next = .ok b) : ∃ a, first = .ok a ∧ next a = .ok b := by
  cases first with
  | ok a => exact ⟨a, rfl, h⟩
  | error err => cases h

@[simp]
theorem Value.ty_ne_unknown (v : Value) : v.ty ≠ .unknown := by
  cases v <;> simp [Value.ty]

namespace Expr

variable {scope : Scope} {ty : Ty}

theorem inferAll_ok {items : List Expr} {types : List Ty}
    (h : inferAll scope items = .ok types) :
    types.length = items.length ∧ ∀ item ∈ items, ∃ itemTy, item.infer scope = .ok itemTy := by
  induction items generalizing types with
  | nil =>
      rw [inferAll] at h
      cases h
      exact ⟨rfl, fun _ hmem => absurd hmem List.not_mem_nil⟩
  | cons first rest ih =>
      rw [inferAll] at h
      obtain ⟨firstTy, hfirst, h⟩ := exists_of_bind_eq_ok h
      obtain ⟨restTypes, hrest, h⟩ := exists_of_bind_eq_ok h
      cases h
      obtain ⟨hlength, htyped⟩ := ih hrest
      exact ⟨congrArg (· + 1) hlength, List.forall_mem_cons.2 ⟨⟨firstTy, hfirst⟩, htyped⟩⟩

/-- A literal has the type of its value. -/
theorem infer_of_literalValue? {e : Expr} {v : Value} (hliteral : e.literalValue? = some v) :
    e.infer scope = .ok v.ty := by
  cases e <;> cases hliteral <;> rfl

theorem infer_list_ok {items : List Expr} (h : (list items).infer scope = .ok ty) :
    (∀ item ∈ items, ∃ itemTy, item.infer scope = .ok itemTy) ∧ ty = .list := by
  rw [infer] at h
  obtain ⟨types, hitems, h⟩ := exists_of_bind_eq_ok h
  cases h
  exact ⟨(inferAll_ok hitems).2, rfl⟩

theorem infer_call_ok {name : String} {args : List Expr}
    (h : (call name args).infer scope = .ok ty) :
    ∃ types, types.length = args.length ∧
      (∀ arg ∈ args, ∃ argTy, arg.infer scope = .ok argTy) ∧ callTy scope name types = .ok ty := by
  rw [infer] at h
  obtain ⟨types, hargs, h⟩ := exists_of_bind_eq_ok h
  obtain ⟨hlength, htyped⟩ := inferAll_ok hargs
  exact ⟨types, hlength, htyped, h⟩

theorem infer_unary_ok {op : UnaryOp} {operand : Expr}
    (h : (unary op operand).infer scope = .ok ty) :
    ∃ operandTy, operand.infer scope = .ok operandTy ∧ op.resultTy? operandTy = some ty := by
  rw [infer] at h
  obtain ⟨operandTy, hoperand, h⟩ := exists_of_bind_eq_ok h
  split at h <;> cases h
  rename_i hop
  exact ⟨operandTy, hoperand, hop⟩

theorem infer_binary_ok {op : BinaryOp} {left right : Expr}
    (h : (binary op left right).infer scope = .ok ty) :
    ∃ leftTy rightTy, left.infer scope = .ok leftTy ∧ right.infer scope = .ok rightTy ∧
      checkPattern op right = .ok () ∧ op.resultTy? leftTy rightTy = some ty := by
  rw [infer] at h
  obtain ⟨leftTy, hleft, h⟩ := exists_of_bind_eq_ok h
  obtain ⟨rightTy, hright, h⟩ := exists_of_bind_eq_ok h
  obtain ⟨⟨⟩, hpattern, h⟩ := exists_of_bind_eq_ok h
  split at h <;> cases h
  rename_i hop
  exact ⟨leftTy, rightTy, hleft, hright, hpattern, hop⟩

theorem infer_conditional_ok {condition thenCase elseCase : Expr}
    (h : (conditional condition thenCase elseCase).infer scope = .ok ty) :
    ∃ conditionTy thenTy elseTy, condition.infer scope = .ok conditionTy ∧
      thenCase.infer scope = .ok thenTy ∧ elseCase.infer scope = .ok elseTy ∧
      conditionTy.isBoolLike ∧ ty = if thenTy = elseTy then thenTy else .unknown := by
  rw [infer] at h
  obtain ⟨conditionTy, hcondition, h⟩ := exists_of_bind_eq_ok h
  by_cases hbool : conditionTy.isBoolLike = true
  · rw [if_pos hbool] at h
    obtain ⟨thenTy, hthen, h⟩ := exists_of_bind_eq_ok h
    obtain ⟨elseTy, helse, h⟩ := exists_of_bind_eq_ok h
    cases h
    exact ⟨conditionTy, thenTy, elseTy, hcondition, hthen, helse, hbool, rfl⟩
  · rw [if_neg hbool] at h
    cases h

end Expr

namespace Scope

variable {name : String}

theorem readTy_of_constant {scope : Scope} {pattern : String}
    (h : DateText.constant? name = some pattern) : scope.readTy name = .text := by
  rw [readTy, h]
  rfl

theorem readTy_typed_of_property {typeOf? : String → Option Ty}
    (h : DateText.constant? name = none) :
    (typed typeOf?).readTy name = (typeOf? name).getD .unknown := by
  rw [readTy, h]
  rfl

end Scope

/-- A call that is checked against a signature has a number of arguments that fits
and the type that the signature says. Of other functions nothing is known. -/
theorem callTy_typed_ok {typeOf? : String → Option Ty} {name : String} {types : List Ty} {ty : Ty}
    (h : callTy (.typed typeOf?) name types = .ok ty) :
    match Builtin.find? name with
    | none => ty = .unknown
    | some function =>
        function.signature.takes types.length ∧ ty = function.signature.returns := by
  have hchecks : (Scope.typed typeOf?).checksCalls = true := rfl
  rw [callTy, if_pos hchecks] at h
  cases hfind : Builtin.find? name with
  | none =>
      simp only [hfind] at h
      cases h
      rfl
  | some function =>
      simp only [hfind] at h
      by_cases htakes : function.signature.takes types.length = true
      · rw [if_pos htakes] at h
        obtain ⟨⟨⟩, -, h⟩ := exists_of_bind_eq_ok h
        cases h
        exact ⟨htakes, rfl⟩
      · rw [if_neg htakes] at h
        cases h

/-! ## Types of results -/

namespace UnaryOp

/-- A unary operator computes a value of the type that the check gives it. -/
theorem resultTy?_of_apply {op : UnaryOp} {operand v : Value} (h : op.apply operand = .ok v) :
    op.resultTy? operand.ty = some v.ty := by
  cases op <;> cases operand <;> simp only [apply, reduceCtorEq, Except.ok.injEq] at h
  case not.bool b =>
    subst h
    rfl
  case neg.int i =>
    split at h <;> cases h
    rfl
  case neg.float x =>
    subst h
    rfl

end UnaryOp

namespace BinaryOp

/-- The type of the result, for operators whose result has the same type whatever
the operands are. -/
def fixedTy? : BinaryOp → Option Ty
  | or | and | eq | ne | lt | le | gt | ge | mem | notMem => some .bool
  | contains | startsWith | endsWith | matching => some .bool
  | div => some .float
  | rem => some .int
  | add | sub | mul | coalesce => none

theorem eq_of_fixedTy?_eq_none {op : BinaryOp} (hop : op.fixedTy? = none) (hne : op ≠ coalesce) :
    op = add ∨ op = sub ∨ op = mul := by
  cases op <;> simp [fixedTy?] at hop hne ⊢

/-- A left operand that settles the value on its own is the value itself. -/
theorem decided?_eq_ok {op : BinaryOp} {left v : Value} (h : op.decided? left = some (.ok v)) :
    v = left ∧ (op.fixedTy? = some v.ty ∨ op = coalesce ∧ left ≠ .nil) := by
  cases op
  case or | and =>
    rcases left with _ | ⟨_ | _⟩ | _ | _ | _ | _ | _ <;> cases h
    exact ⟨rfl, .inl rfl⟩
  case coalesce =>
    cases left <;> cases h
    all_goals exact ⟨rfl, .inr ⟨rfl, nofun⟩⟩
  all_goals cases h

/-- The check gives an operator with a fixed type that type. -/
theorem resultTy?_of_fixedTy? {op : BinaryOp} {fixed leftTy rightTy ty : Ty}
    (hop : op.fixedTy? = some fixed) (hty : op.resultTy? leftTy rightTy = some ty) :
    ty = fixed := by
  cases op <;> cases hop <;> simp only [resultTy?, Option.ite_none_right_eq_some] at hty
  case eq | ne => exact (Option.some.inj hty).symm
  all_goals exact (Option.some.inj hty.2).symm

/-- An operator with a fixed type computes values of that type only. -/
theorem ty_combine_of_fixedTy? {op : BinaryOp} {fixed : Ty} {left right v : Value}
    (hop : op.fixedTy? = some fixed) (h : op.combine left right = .ok v) : v.ty = fixed := by
  cases op <;> cases hop
  case or | and =>
    cases right <;> cases h
    rfl
  case eq | ne =>
    cases h
    rfl
  case rem =>
    cases left <;> cases right <;> simp only [combine, apply, reduceCtorEq] at h
    split at h <;> cases h
    rfl
  case contains | startsWith | endsWith | matching =>
    simp only [combine, apply] at h
    split at h
    · split at h <;> cases h
      rfl
    · cases h
  all_goals
    simp only [combine, apply] at h
    split at h <;> cases h
    rfl

theorem exists_of_exactly {wrap : Int64 → Value} {result : Option Int64} {v : Value}
    (h : exactly wrap result = .ok v) : ∃ i, v = wrap i := by
  cases result with
  | some i =>
      cases h
      exact ⟨i, rfl⟩
  | none => cases h

/-- What a sum, a difference or a product computes has the type that the check
gives it for the types of its operands. -/
theorem resultTy?_of_combine {op : BinaryOp} {left right v : Value} (hop : op.fixedTy? = none)
    (hne : op ≠ coalesce) (h : op.combine left right = .ok v) :
    op.resultTy? left.ty right.ty = some v.ty := by
  obtain rfl | rfl | rfl := eq_of_fixedTy?_eq_none hop hne
  all_goals
    cases left <;> cases right <;> simp only [combine, apply, plainNumbers?, reduceCtorEq] at h
    all_goals
      first
      | cases h
        rfl
      | obtain ⟨i, rfl⟩ := exists_of_exactly h
        rfl

/-- A sum, a difference or a product of something unknown is unknown. -/
theorem resultTy?_of_unknown {op : BinaryOp} {leftTy rightTy : Ty} (hop : op.fixedTy? = none)
    (hne : op ≠ coalesce) (hunknown : leftTy = .unknown ∨ rightTy = .unknown) :
    op.resultTy? leftTy rightTy = some .unknown := by
  obtain rfl | rfl | rfl := eq_of_fixedTy?_eq_none hop hne
  all_goals
    rcases hunknown with rfl | rfl
    · cases rightTy <;> rfl
    · cases leftTy <;> rfl

/-- Nothing known can be added to nil, subtracted from it or multiplied with it, or
the other way round. -/
theorem ne_nil_of_resultTy? {op : BinaryOp} {left right : Value} {ty : Ty}
    (hop : op.fixedTy? = none) (hne : op ≠ coalesce)
    (hty : op.resultTy? left.ty right.ty = some ty) : left ≠ .nil ∧ right ≠ .nil := by
  obtain rfl | rfl | rfl := eq_of_fixedTy?_eq_none hop hne
  all_goals
    constructor
    · rintro rfl
      cases right <;> cases hty
    · rintro rfl
      cases left <;> cases hty

end BinaryOp

namespace StaticFunction

open Run

/-- A value that a static function may answer with, as far as its signature says. -/
def Answers (f : StaticFunction) (v : Value) : Prop :=
  (Builtin.static f).signature.returns = .unknown ∨ v.ty = (Builtin.static f).signature.returns

/-- An error that a call of a static function may end with: an argument that it
cannot use, or a text that is no date. -/
def Raises (name : String) (f : StaticFunction) (args : List Value) (err : EvalError) : Prop :=
  err = .wrongArguments name (args.map Value.ty) ∨
    ∃ short text, f = .parseDate short ∧ err = .unparsableDate text

/-- What a function computes from its arguments alone has the type that its
signature says, and only texts that are no dates make it fail. -/
theorem endsIn_pureValue? {zone : Calendar.Zone} {name : String} {f : StaticFunction}
    {args : List Value} {result : Except EvalError Value}
    (h : f.pureValue? zone args = some result) : EndsIn f.Answers (f.Raises name args) result := by
  unfold pureValue? at h
  split at h
  case h_1 version index =>
    cases h
    exact .inl rfl
  case h_2 | h_7 =>
    cases h
    exact .inr rfl
  case h_3 | h_4 =>
    obtain ⟨i, -, rfl⟩ := Option.map_eq_some_iff.1 h
    exact .inr rfl
  case h_5 time pattern rest =>
    simp only [Option.bind_eq_bind, Option.bind_eq_some_iff] at h
    obtain ⟨millis, -, zoneName, -, h⟩ := h
    cases h
    exact .inl rfl
  case h_6 short text rest =>
    simp only [Option.bind_eq_bind, Option.bind_eq_some_iff] at h
    obtain ⟨pattern, -, zoneName, -, h⟩ := h
    split at h <;> cases h
    · exact .inr rfl
    · exact .inr ⟨short, text, rfl, rfl⟩
  case h_8 => cases h

theorem ends_call {σ : Type} (env : Environment σ) (name : String) (f : StaticFunction)
    (args : List Value) : Ends (f.call env name args) f.Answers (f.Raises name args) := by
  rw [call_eq]
  have hpure : EndsIn f.Answers (f.Raises name args) ((f.pureValue? env.zone args).getD
      (.error (.wrongArguments name (args.map Value.ty)))) := by
    cases h : f.pureValue? env.zone args with
    | some result => exact endsIn_pureValue? h
    | none => exact .inl rfl
  cases f
  case now | random | sessionRandom => exact .asking fun _ => .inr rfl
  all_goals exact .liftExcept hpure

end StaticFunction

/-- A built-in function that is called with a number of arguments that fits ends as
its implementation does: a static one computes, a dynamic one asks the world. -/
theorem ends_callFunction {σ : Type} {env : Environment σ} {name : String} {function : Builtin}
    {args : List Value} {answers : Value → Prop} {fails : EvalError → Prop}
    (hfind : Builtin.find? name = some function)
    (htakes : function.signature.takes args.length = true)
    (hstatic : ∀ f, function = .static f → Run.Ends (f.call env name args) answers fails)
    (hdynamic : ∀ f, function = .dynamic f →
      ∀ s, Run.EndsIn answers fails ((env.function name args s).1.result name)) :
    Run.Ends (callFunction env name args) answers fails := by
  rw [callFunction, hfind]
  simp only [htakes, if_true]
  cases function with
  | static f => exact hstatic f rfl
  | dynamic f =>
      rw [askFunction_eq_asking]
      exact .asking (hdynamic f rfl)

/-- A name that is read ends as the constant that it stands for, or as the world
answers. -/
theorem ends_readName {σ : Type} {env : Environment σ} {name : String} {answers : Value → Prop}
    {fails : EvalError → Prop}
    (hconstant : ∀ pattern, DateText.constant? name = some pattern → answers (.text pattern))
    (hproperty : DateText.constant? name = none →
      ∀ s, Run.EndsIn answers fails (propertyResult (env.property name s).1)) :
    Run.Ends (readName env name) answers fails := by
  rw [readName]
  cases hname : DateText.constant? name with
  | some pattern => exact .pure (hconstant pattern hname)
  | none =>
      rw [askProperty_eq_asking]
      exact .asking (hproperty hname)

end Targeting.Condition
