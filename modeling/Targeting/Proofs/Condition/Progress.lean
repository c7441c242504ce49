/-
# Well-typed conditions do not go wrong

A condition that the check accepts, all parts of which are of known types, is
evaluated in a world that supplies what the types promise. Then the evaluation
answers with true or false, or it fails for a reason that no type can exclude.
The check has one gap: it accepts the negation of a time, which has no value. The
gap is described exactly. No other failure gets through, and every negation of a
time fails.
-/

import Targeting.Proofs.Condition.Failure
import Targeting.Proofs.Condition.Observation

namespace Targeting.Condition

open Run

namespace Expr

/-- An expression contains its parts, and itself. -/
inductive Contains (e : Expr) : Expr → Prop where
  | self : e.Contains e
  | item {items : List Expr} {item : Expr} : e.Contains (.list items) → item ∈ items →
      e.Contains item
  | arg {name : String} {args : List Expr} {arg : Expr} : e.Contains (.call name args) →
      arg ∈ args → e.Contains arg
  | operand {op : UnaryOp} {operand : Expr} : e.Contains (.unary op operand) →
      e.Contains operand
  | left {op : BinaryOp} {left right : Expr} : e.Contains (.binary op left right) →
      e.Contains left
  | right {op : BinaryOp} {left right : Expr} : e.Contains (.binary op left right) →
      e.Contains right
  | condition {condition thenCase elseCase : Expr} :
      e.Contains (.conditional condition thenCase elseCase) → e.Contains condition
  | thenCase {condition thenCase elseCase : Expr} :
      e.Contains (.conditional condition thenCase elseCase) → e.Contains thenCase
  | elseCase {condition thenCase elseCase : Expr} :
      e.Contains (.conditional condition thenCase elseCase) → e.Contains elseCase

/-- No part of the expression is of unknown type. -/
def Known (typeOf? : String → Option Ty) (e : Expr) : Prop :=
  ∀ part, e.Contains part → part.infer (.typed typeOf?) ≠ .ok .unknown

/-- Some part of the expression is the negation of a time. -/
def NegatesTime (typeOf? : String → Option Ty) (e : Expr) : Prop :=
  ∃ operand, e.Contains (.unary .neg operand) ∧ operand.infer (.typed typeOf?) = .ok .time

/-- What no type can exclude: that arithmetic leaves the words or divides by zero,
that a pattern that is not written out turns out malformed, that NaN is put in
order, and that a static function cannot use an argument or reads a text that is
no date. -/
inductive MayRaise {σ : Type} (env : Environment σ) (e : Expr) : EvalError → Prop where
  | integerOverflow : MayRaise env e .integerOverflow
  | divideByZero : MayRaise env e .divideByZero
  | invalidPattern {left right : Expr} {pattern : String} :
      e.Contains (.binary .matching left right) → (∀ s, right ≠ .text s) →
      Regex.parse? pattern = none → MayRaise env e (.invalidPattern pattern)
  | incomparable {op : BinaryOp} {left right : Expr} {a b : Value} :
      e.Contains (.binary op left right) → op.Orders →
      Returns (left.evaluate env) a → Returns (right.evaluate env) b → a.IsNaN ∨ b.IsNaN →
      MayRaise env e (.binaryOperands op a.ty b.ty)
  | wrongArguments {name : String} {args : List Expr} {f : StaticFunction} {types : List Ty} :
      e.Contains (.call name args) → Builtin.find? name = some (.static f) →
      MayRaise env e (.wrongArguments name types)
  | unparsableDate {name text : String} {args : List Expr} {short : Bool} :
      e.Contains (.call name args) → Builtin.find? name = some (.static (.parseDate short)) →
      MayRaise env e (.unparsableDate text)

end Expr

/-- A world that supplies what an expression asks for: properties have values of
their types and never are nil, and dynamic functions succeed with values of the
types that their signatures say. -/
structure Environment.Supplies {σ : Type} (env : Environment σ) (typeOf? : String → Option Ty)
    (e : Expr) : Prop where
  property : ∀ {name ty}, e.Contains (.ident name) → DateText.constant? name = none →
    typeOf? name = some ty → ∀ s, ∃ v, (env.property name s).1 = some v ∧ v.ty = ty
  function : ∀ {name args f}, e.Contains (.call name args) →
    Builtin.find? name = some (.dynamic f) → ∀ values s,
      ∃ v, (env.function name values s).1 = .value v ∧
        v.ty = (Builtin.dynamic f).signature.returns

namespace Expr

variable {σ : Type} {env : Environment σ} {typeOf? : String → Option Ty} {whole : Expr}

/-- What evaluation may fail with, the negation of times included. -/
def Fails (typeOf? : String → Option Ty) (env : Environment σ) (e : Expr) (err : EvalError) :
    Prop :=
  e.MayRaise env err ∨ e.NegatesTime typeOf? ∧ err = .unaryOperand .neg .time

theorem Known.ne_unknown (hwhole : whole.Known typeOf?) {e : Expr} (hpart : whole.Contains e)
    {ty : Ty} (hty : e.infer (.typed typeOf?) = .ok ty) : ty ≠ .unknown := by
  rintro rfl
  exact hwhole e hpart hty

theorem ends_readName_of_supplies (henv : env.Supplies typeOf? whole) {name : String}
    (hpart : whole.Contains (.ident name))
    (hknown : (Scope.typed typeOf?).readTy name ≠ .unknown) :
    Ends (readName env name) (·.ty = (Scope.typed typeOf?).readTy name)
      (whole.Fails typeOf? env) := by
  refine ends_readName (fun pattern hpattern => ?_) (fun hproperty s => ?_)
  · rw [Scope.readTy_of_constant hpattern]
    rfl
  · rw [Scope.readTy_typed_of_property hproperty] at hknown ⊢
    cases hlookup : typeOf? name with
    | none =>
        rw [hlookup] at hknown
        exact absurd rfl hknown
    | some ty =>
        obtain ⟨v, hanswer, hty⟩ := henv.property hpart hproperty hlookup s
        rw [hanswer]
        exact hty

theorem ends_callFunction_of_supplies (henv : env.Supplies typeOf? whole) {name : String}
    {args : List Expr} (hpart : whole.Contains (.call name args)) {types : List Ty}
    {values : List Value} (hlength : values.length = types.length) {ty : Ty}
    (hty : callTy (.typed typeOf?) name types = .ok ty) (hknown : ty ≠ .unknown) :
    Ends (callFunction env name values) (·.ty = ty) (whole.Fails typeOf? env) := by
  have hcall := callTy_typed_ok hty
  cases hfind : Builtin.find? name with
  | none =>
      rw [hfind] at hcall
      exact absurd hcall hknown
  | some function =>
      rw [hfind] at hcall
      obtain ⟨htakes, rfl⟩ := hcall
      refine ends_callFunction hfind (hlength ▸ htakes) ?_ ?_
      · rintro f rfl
        refine (f.ends_call env name values).mono (fun v hv => hv.resolve_left hknown) ?_
        rintro err (rfl | ⟨short, text, rfl, rfl⟩)
        · exact .inl (.wrongArguments hpart hfind)
        · exact .inl (.unparsableDate hpart hfind)
      · rintro f rfl s
        obtain ⟨v, hanswer, hreturns⟩ := henv.function hpart hfind values s
        rw [hanswer]
        exact hreturns

/-- What an operator may fail with, the whole may fail with. A pattern that is
written out has been checked, so a malformed one was not written out. -/
theorem mayRaise_of_raises {op : BinaryOp} {left right : Expr} {a b : Value} {err : EvalError}
    (hpart : whole.Contains (.binary op left right)) (hpattern : checkPattern op right = .ok ())
    (ha : Returns (left.evaluateWith (.of env)) a) (hb : Returns (right.evaluateWith (.of env)) b)
    (herr : op.Raises a b err) : whole.MayRaise env err := by
  cases herr with
  | integerOverflow => exact .integerOverflow
  | divideByZero => exact .divideByZero
  | invalidPattern htext hbad =>
      refine .invalidPattern hpart ?_ hbad
      rintro s rfl
      cases htext.symm.trans hb.eq_of_pure
      simp [checkPattern, hbad] at hpattern
  | incomparable horders hnan =>
      rw [← evaluate_eq_evaluateWith] at ha hb
      exact .incomparable hpart horders ha hb hnan

/-- Evaluation of a part ends in a value of the type of the part, or it fails with
what the whole may fail with. -/
theorem ends_typed (hwhole : whole.Known typeOf?) (henv : env.Supplies typeOf? whole) {e : Expr}
    (hpart : whole.Contains e) {ty : Ty} (hty : e.infer (.typed typeOf?) = .ok ty) :
    Ends (e.evaluateWith (.of env)) (·.ty = ty) (whole.Fails typeOf? env) := by
  induction e using Expr.induction generalizing ty with
  | literal e v hliteral =>
      rw [infer_of_literalValue? hliteral] at hty
      cases hty
      rw [evaluateWith_of_literalValue? _ hliteral]
      exact .pure rfl
  | list items ih =>
      obtain ⟨hitems, rfl⟩ := infer_list_ok hty
      refine ends_list (fun item hitem => ?_) fun _ => rfl
      obtain ⟨itemTy, hitemTy⟩ := hitems item hitem
      exact (ih item hitem (hpart.item hitem) hitemTy).mono (fun _ _ => True.intro) fun _ => id
  | ident name =>
      cases hty
      exact ends_readName_of_supplies henv hpart (hwhole.ne_unknown hpart rfl)
  | call name args ih =>
      obtain ⟨types, hlength, hargs, hcall⟩ := infer_call_ok hty
      refine ends_call (fun arg harg => ?_) fun values hvalues => ?_
      · obtain ⟨argTy, hargTy⟩ := hargs arg harg
        exact (ih arg harg (hpart.arg harg) hargTy).mono (fun _ _ => True.intro) fun _ => id
      · exact ends_callFunction_of_supplies henv hpart (hvalues.trans hlength.symm) hcall
          (hwhole.ne_unknown hpart hty)
  | unary op operand ih =>
      obtain ⟨operandTy, hoperand, hop⟩ := infer_unary_ok hty
      refine ends_unary (ih hpart.operand hoperand) ?_
      rintro v rfl
      refine (UnaryOp.endsIn_apply hop).mono (fun _ => id) ?_
      rintro err (rfl | ⟨⟨rfl, htime⟩, rfl⟩)
      · exact .inl .integerOverflow
      · exact .inr ⟨⟨operand, hpart, htime ▸ hoperand⟩, rfl⟩
  | binary op left right ihleft ihright =>
      obtain ⟨leftTy, rightTy, hleft, hright, hpattern, hop⟩ := infer_binary_ok hty
      have hknown := hwhole.ne_unknown hpart hty
      refine ends_binary (ihleft hpart.left hleft).returns (ihright hpart.right hright).returns
        ?_ ?_
      · rintro a result ⟨rfl, -⟩ hdecided
        exact BinaryOp.endsIn_decided hop hknown hdecided
      -- A failure over NaN or a pattern names operands, so they have to be answers.
      · rintro a b ⟨rfl, ha⟩ ⟨rfl, hb⟩ -
        exact (BinaryOp.endsIn_combine hop hknown).mono (fun _ => id) fun err herr =>
          .inl (mayRaise_of_raises hpart hpattern ha hb herr)
  | conditional condition thenCase elseCase ihcond ihthen ihelse =>
      obtain ⟨conditionTy, thenTy, elseTy, hcond, hthen, helse, hbool, rfl⟩ :=
        infer_conditional_ok hty
      have hknown := hwhole.ne_unknown hpart hty
      by_cases hsame : thenTy = elseTy
      case neg =>
        rw [if_neg hsame] at hknown
        exact absurd rfl hknown
      rw [if_pos hsame]
      refine ends_conditional (ihcond hpart.condition hcond) (ihthen hpart.thenCase hthen)
        (hsame ▸ ihelse hpart.elseCase helse) ?_
      rintro v rfl hbranch
      obtain ⟨b, rfl⟩ := Value.exists_bool hbool
      exact absurd rfl (hbranch b)

/-- The negation of a time fails whenever there is a time to negate. -/
theorem run_neg_of_time (hwhole : whole.Known typeOf?) (henv : env.Supplies typeOf? whole)
    {operand : Expr} (hpart : whole.Contains (.unary .neg operand))
    (htime : operand.infer (.typed typeOf?) = .ok .time) {s s' : σ} {v : Value}
    (hrun : (operand.evaluate env).run s = (.ok v, s')) :
    ((unary .neg operand).evaluate env).run s = (.error (.unaryOperand .neg .time), s') := by
  have hty := ends_typed hwhole henv hpart.operand htime s
  rw [← evaluate_eq_evaluateWith, hrun] at hty
  rw [evaluate, run_bind_of_ok hrun]
  cases v <;> cases hty
  rfl

/-- Well-typed conditions do not go wrong, but for the negation of times. A condition
that the check accepts and that has no part of unknown type answers with true or
false in every world that supplies what it asks for, or it fails for a reason that
no type can exclude, or it contains the negation of a time and fails over that. And
a negation of a time fails whenever it is evaluated and there is a time to negate. -/
theorem check_ensures_progress {e : Expr} (hcheck : e.check (.typed typeOf?) = .ok ())
    (hknown : e.Known typeOf?) (henv : env.Supplies typeOf? e) :
    (∀ s err, ((Program.mk e).evaluate env s).1 = .error err → ∃ cause, err = .evaluation cause ∧
      (e.MayRaise env cause ∨ e.NegatesTime typeOf? ∧ cause = .unaryOperand .neg .time)) ∧
    ∀ operand, e.Contains (.unary .neg operand) → operand.infer (.typed typeOf?) = .ok .time →
      ∀ s v s', (operand.evaluate env).run s = (.ok v, s') →
        ((unary .neg operand).evaluate env).run s = (.error (.unaryOperand .neg .time), s') := by
  constructor
  · intro s err herr
    obtain ⟨ty, hty, hbool⟩ := exists_of_bind_eq_ok hcheck
    have hends := ends_typed hknown henv .self hty s
    rw [Program.evaluate_eq_verdict, evaluate_eq_evaluateWith] at herr
    dsimp only at herr
    cases hresult : ((e.evaluateWith (.of env)).run s).1 with
    | error cause =>
        rw [hresult] at hends herr
        cases herr
        exact ⟨cause, rfl, hends⟩
    | ok v =>
        rw [hresult] at hends herr
        obtain rfl : v.ty = ty := hends
        by_cases hlike : v.ty.isBoolLike = true
        · obtain ⟨b, rfl⟩ := Value.exists_bool hlike
          cases herr
        · rw [if_neg hlike] at hbool
          cases hbool
  · intro operand hpart htime s v s' hrun
    exact run_neg_of_time hknown henv hpart htime hrun

/-- The check accepts `-app_install_date < 0`, and it fails on every device. -/
theorem negated_install_date_goes_wrong :
    let env := Environment.ofTables [("app_install_date", .time 1000000)] []
    let negation := Expr.unary .neg (.ident "app_install_date")
    (Expr.binary .lt negation (.int 0)).check .catalog = .ok () ∧
      (negation.evaluate env).run () = (.error (.unaryOperand .neg .time), ()) ∧
      ((Program.mk (.binary .lt negation (.int 0))).evaluate env ()).1 =
        .error (.evaluation (.unaryOperand .neg .time)) := by
  intro env negation
  have hparts : ∀ part, (Expr.binary .lt negation (.int 0)).Contains part →
      part ∈ [.binary .lt negation (.int 0), negation, .ident "app_install_date", .int 0] := by
    intro part hpart
    induction hpart <;> simp_all [negation]
  have hcheck : (Expr.binary .lt negation (.int 0)).check .catalog = .ok () := rfl
  have hknown : (Expr.binary .lt negation (.int 0)).Known
      fun name => (Catalog.kindOf? name).map Ty.ofKind := by
    intro part hpart
    have hmem := hparts part hpart
    simp only [List.mem_cons, List.not_mem_nil, or_false] at hmem
    rcases hmem with rfl | rfl | rfl | rfl
    · exact (show Except.ok Ty.bool ≠ .ok .unknown from nofun)
    · exact (show Except.ok Ty.time ≠ .ok .unknown from nofun)
    · exact (show Except.ok Ty.time ≠ .ok .unknown from nofun)
    · exact (show Except.ok Ty.int ≠ .ok .unknown from nofun)
  have henv : env.Supplies (fun name => (Catalog.kindOf? name).map Ty.ofKind)
      (.binary .lt negation (.int 0)) := by
    constructor
    · intro name ty hpart _ hty s
      obtain rfl : name = "app_install_date" := by simpa [negation] using hparts _ hpart
      cases hty
      exact ⟨.time 1000000, rfl, rfl⟩
    · intro name args f hpart
      simpa [negation] using hparts _ hpart
  exact ⟨hcheck, (check_ensures_progress hcheck hknown henv).2 (.ident "app_install_date")
    (.left .self) rfl () (.time 1000000) () rfl, rfl⟩

end Expr

end Targeting.Condition
