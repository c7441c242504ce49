/-
# Evaluation, taken apart

Evaluation mixes three things: how names are answered, which operands are
evaluated, and what is computed from their values. This module takes them apart.
`evaluateWith` is evaluation with the answers to names as a parameter, and
`evaluate_eq_evaluateWith` says that the evaluation of conditions is the instance
in which an environment answers. For binary operators, `decided?` is what the
left operand settles on its own and `combine` what both operands give; neither
touches the world.

Induction over expressions follows the same cut: all literals are one case, and
the members of lists and argument lists are reached through membership. What the
evaluation of an expression ends with is said for each form of expression in terms
of what the parts end with.
-/

import Targeting.Condition.Eval
import Targeting.Proofs.Condition.Run

namespace Targeting.Condition

/-- What the left operand settles without the right one: the value of a logical
operator that it decides, the failure of one that it does not fit, or a value
that needs no stand-in. -/
def BinaryOp.decided? (op : BinaryOp) (left : Value) : Option (Except EvalError Value) :=
  match op, left with
  | .or, .bool true => some (.ok (.bool true))
  | .and, .bool false => some (.ok (.bool false))
  | .or, .bool false | .and, .bool true | .coalesce, .nil => none
  | .or, _ | .and, _ => some (.error (.logicalOperand op left.ty))
  | .coalesce, _ => some (.ok left)
  | _, _ => none

/-- What both operands give when the left one has not settled it. -/
def BinaryOp.combine (op : BinaryOp) (left right : Value) : Except EvalError Value :=
  match op, right with
  | .or, .bool b | .and, .bool b => .ok (.bool b)
  | .or, _ | .and, _ => .error (.binaryOperands op .bool right.ty)
  | .coalesce, _ => .ok right
  | _, _ => op.apply left right

/-- The result of reading a property: a world that breaks down is a fault. -/
def propertyResult (answer : Option Value) : Except EvalError Value :=
  answer.elim (.error .fault) .ok

theorem eq_some_of_propertyResult {answer : Option Value} {v : Value}
    (h : propertyResult answer = .ok v) : answer = some v := by
  cases answer <;> cases h
  rfl

/-- The result of calling a function that the world provides. -/
def Reply.result (name : String) : Reply → Except EvalError Value
  | value v => .ok v
  | failed message => .error (.host message)
  | unprovided => .error (.unavailable name)
  | fault => .error .fault

theorem Reply.eq_value_of_result {name : String} {reply : Reply} {v : Value}
    (h : reply.result name = .ok v) : reply = .value v := by
  cases reply <;> cases h
  rfl

/-- A world without memory that answers from tables. It breaks down over properties
that it does not know, and it provides no other functions. -/
def Environment.ofTables (properties functions : List (String × Value)) : Environment Unit :=
  { Environment.empty with
    property := fun name s => (properties.lookup name, s)
    function := fun name _ s => (((functions.lookup name).map Reply.value).getD .unprovided, s) }

section Asking

variable {σ : Type} (env : Environment σ)

theorem askProperty_eq_asking (name : String) :
    askProperty env name = Run.asking (env.property name) propertyResult := by
  funext s
  rw [askProperty, Run.asking]
  rcases env.property name s with ⟨_ | v, s'⟩ <;> rfl

theorem askFunction_eq_asking (name : String) (args : List Value) :
    askFunction env name args = Run.asking (env.function name args) (Reply.result name) := by
  funext s
  rw [askFunction, Run.asking]
  rcases env.function name args s with ⟨_ | _ | _ | _, s'⟩ <;> rfl

/-- A static function asks for the time or for a random number, or it computes its
value from the arguments and the zone of the device. -/
theorem StaticFunction.call_eq (name : String) (f : StaticFunction) (args : List Value) :
    f.call env name args =
      match f with
      | now => Run.asking env.now fun millis => .ok (.int millis)
      | random => Run.asking env.random fun number => .ok (.int number)
      | sessionRandom => Run.asking env.sessionRandom fun number => .ok (.int number)
      | f => liftExcept ((f.pureValue? env.zone args).getD
          (.error (.wrongArguments name (args.map Value.ty)))) := by
  funext s
  cases f
  case now | random | sessionRandom => rfl
  all_goals
    refine Eq.trans ?_ (Run.run_liftExcept_apply _ s).symm
    rw [StaticFunction.call.eq_def]
    dsimp only
    cases StaticFunction.pureValue? env.zone _ args <;> rfl

end Asking

/-- How evaluation gets at the world: what it does to read a name, and what it
does to call one with values for the arguments. -/
structure Access (σ : Type) where
  read : String → Run σ Value
  call : String → List Value → Run σ Value

/-- Access to the world of an environment. -/
def Access.of {σ : Type} (env : Environment σ) : Access σ :=
  ⟨readName env, callFunction env⟩

namespace Expr

/-- The value of a literal. -/
def literalValue? : Expr → Option Value
  | nil => some .nil
  | bool b => some (.bool b)
  | int i => some (.int i)
  | float x => some (.float x)
  | text s => some (.text s)
  | _ => none

theorem isLiteral_iff_literalValue? {e : Expr} :
    e.isLiteral = true ↔ ∃ v, e.literalValue? = some v := by
  cases e <;> simp [isLiteral, literalValue?]

/-- Induction over expressions with the literals as one case. -/
@[elab_as_elim]
theorem induction {motive : Expr → Prop}
    (literal : ∀ e v, e.literalValue? = some v → motive e)
    (list : ∀ items, (∀ item ∈ items, motive item) → motive (.list items))
    (ident : ∀ name, motive (.ident name))
    (call : ∀ name args, (∀ arg ∈ args, motive arg) → motive (.call name args))
    (unary : ∀ op operand, motive operand → motive (.unary op operand))
    (binary : ∀ op left right, motive left → motive right → motive (.binary op left right))
    (conditional : ∀ condition thenCase elseCase, motive condition → motive thenCase →
      motive elseCase → motive (.conditional condition thenCase elseCase)) (e : Expr) :
    motive e :=
  @Expr.rec motive (fun items => ∀ item ∈ items, motive item)
    (literal _ _ rfl) (fun _ => literal _ _ rfl) (fun _ => literal _ _ rfl)
    (fun _ => literal _ _ rfl) (fun _ => literal _ _ rfl)
    list ident call unary binary conditional
    (fun _ hnil => absurd hnil List.not_mem_nil)
    (fun _ _ hfirst hrest => List.forall_mem_cons.2 ⟨hfirst, hrest⟩) e

mutual

/-- Value of an expression under a given access to the world. -/
def evaluateWith {σ : Type} (access : Access σ) : Expr → Run σ Value
  | nil => pure .nil
  | bool b => pure (.bool b)
  | int i => pure (.int i)
  | float x => pure (.float x)
  | text s => pure (.text s)
  | list items => do
    let values ← evaluateAllWith access items
    pure (.list values)
  | ident name => access.read name
  | call name args => do
    let values ← evaluateAllWith access args
    access.call name values
  | unary op operand => do
    let value ← evaluateWith access operand
    liftExcept (op.apply value)
  | binary op left right => do
    let leftValue ← evaluateWith access left
    match op.decided? leftValue with
    | some result => liftExcept result
    | none => do
      let rightValue ← evaluateWith access right
      liftExcept (op.combine leftValue rightValue)
  | conditional condition thenCase elseCase => do
    let decision ← evaluateWith access condition
    match decision with
    | .bool true => evaluateWith access thenCase
    | .bool false => evaluateWith access elseCase
    | other => throw (.branchNotBool other.ty)

/-- Values of expressions under a given access to the world, in order. -/
def evaluateAllWith {σ : Type} (access : Access σ) : List Expr → Run σ (List Value)
  | [] => pure []
  | first :: rest => do
    let value ← evaluateWith access first
    let values ← evaluateAllWith access rest
    pure (value :: values)

end

variable {σ : Type}

/-- A literal has its value in every world and asks nothing. -/
theorem evaluateWith_of_literalValue? (access : Access σ) {e : Expr} {v : Value}
    (hliteral : e.literalValue? = some v) : e.evaluateWith access = pure v := by
  cases e <;> cases hliteral <;> rfl

/-- Taking a binary operator apart changes nothing: the right operand is evaluated
exactly when the left one has not settled the value. -/
theorem evaluate_binary (env : Environment σ) (op : BinaryOp) (left right : Expr) :
    (binary op left right).evaluate env =
      left.evaluate env >>= fun leftValue =>
        match op.decided? leftValue with
        | some result => liftExcept result
        | none => right.evaluate env >>= fun rightValue =>
            liftExcept (op.combine leftValue rightValue) := by
  rw [evaluate]
  refine bind_congr fun leftValue => ?_
  cases op
  case or | and =>
    rcases leftValue with _ | ⟨_ | _⟩ | _ | _ | _ | _ | _ <;> try rfl
    all_goals
      refine bind_congr (x := right.evaluate env) fun rightValue => ?_
      cases rightValue <;> rfl
  case coalesce =>
    cases leftValue <;> first | rfl | exact (bind_pure _).symm
  all_goals rfl

theorem evaluateAll_eq_evaluateAllWith (env : Environment σ) {items : List Expr}
    (hitems : ∀ item ∈ items, item.evaluate env = item.evaluateWith (.of env)) :
    evaluateAll env items = evaluateAllWith (.of env) items := by
  induction items with
  | nil => rfl
  | cons first rest ih =>
      obtain ⟨hfirst, hrest⟩ := List.forall_mem_cons.1 hitems
      rw [evaluateAll, evaluateAllWith, hfirst, ih hrest]

theorem evaluate_eq_evaluateWith (env : Environment σ) (e : Expr) :
    e.evaluate env = e.evaluateWith (.of env) := by
  induction e using Expr.induction with
  | literal e v hliteral => cases e <;> first | rfl | cases hliteral
  | list items ih => rw [evaluate, evaluateWith, evaluateAll_eq_evaluateAllWith env ih]
  | ident name => rfl
  | call name args ih =>
      rw [evaluate, evaluateWith, evaluateAll_eq_evaluateAllWith env ih]
      rfl
  | unary op operand ih => rw [evaluate, evaluateWith, ih]
  | binary op left right ihleft ihright => rw [evaluate_binary, evaluateWith, ihleft, ihright]
  | conditional condition thenCase elseCase ihcond ihthen ihelse =>
      rw [evaluate, evaluateWith, ihcond]
      refine bind_congr fun decision => ?_
      rcases decision with _ | ⟨_ | _⟩ | _ | _ | _ | _ | _
      case bool.false => exact ihelse
      case bool.true => exact ihthen
      all_goals rfl

/-! ## What evaluation ends with -/

section Ends

open Run

variable {access : Access σ} {answers : Value → Prop} {fails : EvalError → Prop}

theorem ends_evaluateAllWith {items : List Expr}
    (hitems : ∀ item ∈ items, Ends (item.evaluateWith access) (fun _ => True) fails) :
    Ends (evaluateAllWith access items) (fun values => values.length = items.length) fails := by
  induction items with
  | nil => exact .pure rfl
  | cons first rest ih =>
      obtain ⟨hfirst, hrest⟩ := List.forall_mem_cons.1 hitems
      rw [evaluateAllWith]
      refine hfirst.bind fun _ _ => (ih hrest).bind fun values hvalues => .pure ?_
      rw [List.length_cons, List.length_cons, hvalues]

theorem ends_list {items : List Expr}
    (hitems : ∀ item ∈ items, Ends (item.evaluateWith access) (fun _ => True) fails)
    (hlist : ∀ values, answers (.list values)) :
    Ends ((list items).evaluateWith access) answers fails := by
  rw [evaluateWith]
  exact (ends_evaluateAllWith hitems).bind fun values _ => .pure (hlist values)

theorem ends_call {name : String} {args : List Expr}
    (hargs : ∀ arg ∈ args, Ends (arg.evaluateWith access) (fun _ => True) fails)
    (hcall : ∀ values, values.length = args.length →
      Ends (access.call name values) answers fails) :
    Ends ((call name args).evaluateWith access) answers fails := by
  rw [evaluateWith]
  exact (ends_evaluateAllWith hargs).bind hcall

theorem ends_unary {op : UnaryOp} {operand : Expr} {fits : Value → Prop}
    (hoperand : Ends (operand.evaluateWith access) fits fails)
    (happly : ∀ v, fits v → EndsIn answers fails (op.apply v)) :
    Ends ((unary op operand).evaluateWith access) answers fails := by
  rw [evaluateWith]
  exact hoperand.bind fun v hv => .liftExcept (happly v hv)

theorem ends_binary {op : BinaryOp} {left right : Expr} {fits fits' : Value → Prop}
    (hleft : Ends (left.evaluateWith access) fits fails)
    (hright : Ends (right.evaluateWith access) fits' fails)
    (hdecided : ∀ a result, fits a → op.decided? a = some result →
      EndsIn answers fails result)
    (hcombine : ∀ a b, fits a → fits' b → op.decided? a = none →
      EndsIn answers fails (op.combine a b)) :
    Ends ((binary op left right).evaluateWith access) answers fails := by
  rw [evaluateWith]
  refine hleft.bind fun a ha => ?_
  cases hop : op.decided? a with
  | some result => exact .liftExcept (hdecided a result ha hop)
  | none => exact hright.bind fun b hb => .liftExcept (hcombine a b ha hb hop)

theorem ends_conditional {condition thenCase elseCase : Expr} {fits : Value → Prop}
    (hcondition : Ends (condition.evaluateWith access) fits fails)
    (hthen : Ends (thenCase.evaluateWith access) answers fails)
    (helse : Ends (elseCase.evaluateWith access) answers fails)
    (hbranch : ∀ v, fits v → (∀ b, v ≠ .bool b) → fails (.branchNotBool v.ty)) :
    Ends ((conditional condition thenCase elseCase).evaluateWith access) answers fails := by
  rw [evaluateWith]
  refine hcondition.bind fun v hv => ?_
  split
  · exact hthen
  · exact helse
  · rename_i htrue hfalse
    exact .throw (hbranch v hv (Bool.forall_bool.2 ⟨hfalse, htrue⟩))

end Ends

end Expr

end Targeting.Condition
