/-
# One pass of simplification is enough

A simplified expression has nothing left to simplify. None of its parts is a logical operator that
its left operand decides, a stand-in for a literal, a conditional on a literal truth value, or an
operator on literals that computes a value; and simplifying it once more changes nothing. Operators
on literals whose computation fails do stay, and so do logical operators and conditionals on
literals that are no truth values: these are the failures that evaluation has to show.

Which branches are decided is also said without simplification, by rules for the expressions that
settle to a value. A simplified expression has exactly the uses of names outside of decided
branches, so a name that only occurs inside of them is not among the names of a condition.
-/

import Targeting.Proofs.Condition.Operands
import Targeting.Proofs.Condition.Precision
import Targeting.Proofs.Condition.Simplification

namespace Targeting.Condition

namespace BinaryOp

/-- What a binary operator makes of two values. -/
def outcome (op : BinaryOp) (left right : Value) : Except EvalError Value :=
  (op.decided? left).getD (op.combine left right)

theorem outcome_cases {op : BinaryOp} {a b v : Value} (h : op.outcome a b = .ok v) :
    op.decided? a = some (.ok v) ∨ op.decided? a = none ∧ op.combine a b = .ok v := by
  rw [outcome] at h
  cases hdecided : op.decided? a with
  | some result =>
      rw [hdecided] at h
      exact .inl (congrArg some h)
  | none =>
      rw [hdecided] at h
      exact .inr ⟨rfl, h⟩

end BinaryOp

namespace Expr

/-! ## Operators on literals -/

/-- An operator all operands of which are literals. -/
def OnLiterals : Expr → Prop
  | unary _ operand => operand.isLiteral
  | binary _ left right => left.isLiteral ∧ right.isLiteral
  | _ => False

/-- What can be simplified where it stands: a logical operator that its left operand decides, a
stand-in for a literal, a conditional on a literal truth value, or an operator on literals that
evaluates to a value in some world. -/
inductive Redex : Expr → Prop
  | and (right : Expr) : Redex (.binary .and (.bool false) right)
  | or (right : Expr) : Redex (.binary .or (.bool true) right)
  | coalesce {left : Expr} (right : Expr) : left.isLiteral → Redex (.binary .coalesce left right)
  | conditional (b : Bool) (thenCase elseCase : Expr) :
      Redex (.conditional (.bool b) thenCase elseCase)
  | computes {e : Expr} {σ : Type} {env : Environment σ} {v : Value} :
      e.OnLiterals → Run.Returns (e.evaluate env) v → Redex e

/-- An expression without parts that can be simplified. -/
def Normal (e : Expr) : Prop := ∀ part, e.Contains part → ¬ part.Redex

/-- An operator on literals, and what it makes of their values. -/
inductive Computes : Expr → Except EvalError Value → Prop
  | unary {op : UnaryOp} {operand : Expr} {a : Value} : operand.literalValue? = some a →
      Computes (.unary op operand) (op.apply a)
  | binary {op : BinaryOp} {left right : Expr} {a b : Value} : left.literalValue? = some a →
      right.literalValue? = some b → Computes (.binary op left right) (op.outcome a b)

theorem ofValue?_of_literalValue? {e : Expr} {v : Value} (h : e.literalValue? = some v) :
    ofValue? v = some e := by
  cases e <;> cases h <;> rfl

theorem eq_of_literalValue? {e e' : Expr} {v : Value} (h : e.literalValue? = some v)
    (h' : e'.literalValue? = some v) : e = e' :=
  Option.some.inj ((ofValue?_of_literalValue? h).symm.trans (ofValue?_of_literalValue? h'))

theorem exists_ofValue? {v : Value} (htime : v.ty ≠ .time) (hlist : v.ty ≠ .list) :
    ∃ literal, ofValue? v = some literal := by
  cases v
  case time => exact absurd rfl htime
  case list => exact absurd rfl hlist
  all_goals exact ⟨_, rfl⟩

theorem exists_ofValue?_of_apply {op : UnaryOp} {a v : Value} (h : op.apply a = .ok v) :
    ∃ literal, ofValue? v = some literal := by
  cases op <;> cases a <;> simp only [UnaryOp.apply, reduceCtorEq, Except.ok.injEq] at h
  case not.bool b => exact ⟨_, congrArg ofValue? h.symm⟩
  case neg.float x => exact ⟨_, congrArg ofValue? h.symm⟩
  case neg.int i =>
    split at h <;> cases h
    exact ⟨_, rfl⟩

/-- An operator on two values that have literals does not compute a time or a list. -/
theorem exists_ofValue?_of_combine {op : BinaryOp} {left right : Expr} {a b v : Value}
    (ha : left.literalValue? = some a) (hb : right.literalValue? = some b)
    (h : op.combine a b = .ok v) : ∃ literal, ofValue? v = some literal := by
  cases hop : op.fixedTy? with
  | some fixed =>
      have hty := BinaryOp.ty_combine_of_fixedTy? hop h
      subst hty
      refine exists_ofValue? (fun htime => ?_) fun hlist => ?_
      · rw [htime] at hop
        cases op <;> cases hop
      · rw [hlist] at hop
        cases op <;> cases hop
  | none =>
      by_cases hcoalesce : op = .coalesce
      · subst hcoalesce
        cases h
        exact ⟨right, ofValue?_of_literalValue? hb⟩
      · have hty := BinaryOp.resultTy?_of_combine hop hcoalesce h
        refine exists_ofValue? (fun htime => ?_) fun hlist => ?_
        all_goals
          obtain rfl | rfl | rfl := BinaryOp.eq_of_fixedTy?_eq_none hop hcoalesce
          all_goals
            rw [‹v.ty = _›] at hty
            cases left <;> cases ha <;> cases right <;> cases hb <;> cases hty

theorem computes_unary_iff {op : UnaryOp} {operand : Expr} {result : Except EvalError Value} :
    (unary op operand).Computes result ↔
      ∃ a, operand.literalValue? = some a ∧ op.apply a = result := by
  constructor
  · rintro ⟨ha⟩
    exact ⟨_, ha, rfl⟩
  · rintro ⟨a, ha, rfl⟩
    exact .unary ha

theorem computes_binary_iff {op : BinaryOp} {left right : Expr} {result : Except EvalError Value} :
    (binary op left right).Computes result ↔
      ∃ a b, left.literalValue? = some a ∧ right.literalValue? = some b ∧
        op.outcome a b = result := by
  constructor
  · rintro ⟨⟩
    exact ⟨_, _, ‹_›, ‹_›, rfl⟩
  · rintro ⟨a, b, ha, hb, rfl⟩
    exact .binary ha hb

namespace Computes

variable {e : Expr} {result : Except EvalError Value}

theorem evaluateWith {σ : Type} (h : Computes e result) (access : Access σ) :
    e.evaluateWith access = liftExcept result := by
  cases h with
  | @unary op operand a ha =>
      rw [Expr.evaluateWith, evaluateWith_of_literalValue? access ha, pure_bind]
  | @binary op left right a b ha hb =>
      rw [Expr.evaluateWith, evaluateWith_of_literalValue? access ha, pure_bind,
        evaluateWith_of_literalValue? access hb, BinaryOp.outcome]
      cases op.decided? a with
      | some result => rfl
      | none => exact pure_bind _ _

theorem evaluate {σ : Type} (h : Computes e result) (env : Environment σ) (s : σ) :
    (e.evaluate env).run s = (result, s) := by
  rw [evaluate_eq_evaluateWith, h.evaluateWith, Run.run_liftExcept_apply]

theorem exists_literal {v : Value} (h : Computes e (.ok v)) :
    ∃ literal, ofValue? v = some literal := by
  generalize hresult : Except.ok v = result at h
  cases h with
  | unary ha => exact exists_ofValue?_of_apply hresult.symm
  | @binary op left right a b ha hb =>
      obtain hdecided | ⟨-, hcombine⟩ := BinaryOp.outcome_cases hresult.symm
      · obtain ⟨rfl, -⟩ := BinaryOp.decided?_eq_ok hdecided
        exact ⟨left, ofValue?_of_literalValue? ha⟩
      · exact exists_ofValue?_of_combine ha hb hcombine

theorem onLiterals (h : Computes e result) : e.OnLiterals := by
  cases h with
  | unary ha => exact isLiteral_iff_literalValue?.2 ⟨_, ha⟩
  | binary ha hb =>
      exact ⟨isLiteral_iff_literalValue?.2 ⟨_, ha⟩, isLiteral_iff_literalValue?.2 ⟨_, hb⟩⟩

end Computes

theorem OnLiterals.exists_computes {e : Expr} (h : e.OnLiterals) : ∃ result, e.Computes result := by
  cases e with
  | unary op operand =>
      obtain ⟨a, ha⟩ := isLiteral_iff_literalValue?.1 h
      exact ⟨_, .unary ha⟩
  | binary op left right =>
      obtain ⟨a, ha⟩ := isLiteral_iff_literalValue?.1 h.1
      obtain ⟨b, hb⟩ := isLiteral_iff_literalValue?.1 h.2
      exact ⟨_, .binary ha hb⟩
  | _ => exact h.elim

/-- An operator on literals evaluates to a value in some world just when it computes one. -/
theorem computes_of_returns {e : Expr} {σ : Type} {env : Environment σ} {v : Value}
    (hliterals : e.OnLiterals) (h : Run.Returns (e.evaluate env) v) : e.Computes (.ok v) := by
  obtain ⟨result, hcomputes⟩ := hliterals.exists_computes
  obtain ⟨s, s', hrun⟩ := h
  rw [hcomputes.evaluate] at hrun
  cases hrun
  exact hcomputes

theorem Computes.redex {e : Expr} {v : Value} (h : e.Computes (.ok v)) : e.Redex :=
  .computes h.onLiterals ⟨(), (), h.evaluate Environment.empty ()⟩

/-! ## Folding -/

/-- Folding leaves alone what does not compute a value. -/
theorem fold_cases (e : Expr) :
    (fold e = e ∧ ∀ v, ¬ e.Computes (.ok v)) ∨
      ∃ v, e.Computes (.ok v) ∧ (fold e).literalValue? = some v := by
  by_cases hliterals : e.OnLiterals
  · obtain ⟨result, hcomputes⟩ := hliterals.exists_computes
    have hrun := hcomputes.evaluate Environment.empty ()
    cases result with
    | error err =>
        refine .inl ⟨?_, fun v hv => ?_⟩
        · rw [fold, hrun]
          exact ite_self e
        · rw [hv.evaluate] at hrun
          cases hrun
    | ok v =>
        obtain ⟨literal, hliteral⟩ := hcomputes.exists_literal
        have hconstant : e.isConstantOperation := by
          generalize hresult : Except.ok v = result at hcomputes
          cases hcomputes with
          | @unary op operand a ha =>
              rw [isConstantOperation, isLiteral_iff_literalValue?.2 ⟨a, ha⟩]
              cases op <;> cases operand <;> cases ha <;> first | rfl | cases hresult
          | @binary op left right a b ha hb =>
              rw [isConstantOperation, isLiteral_iff_literalValue?.2 ⟨a, ha⟩,
                isLiteral_iff_literalValue?.2 ⟨b, hb⟩]
              rfl
        refine .inr ⟨v, hcomputes, ?_⟩
        rw [fold, if_pos hconstant, hrun]
        simp only [hliteral, Option.getD_some]
        exact literalValue?_of_ofValue? hliteral
  · refine .inl ⟨?_, fun v hv => hliterals hv.onLiterals⟩
    have hconstant : ¬ e.isConstantOperation := by
      intro hconstant
      cases e with
      | unary op operand =>
          rw [isConstantOperation, Bool.and_eq_true] at hconstant
          exact hliterals hconstant.1
      | binary op left right =>
          rw [isConstantOperation, Bool.and_eq_true] at hconstant
          exact hliterals hconstant
      | _ => cases hconstant
    rw [fold, if_neg hconstant]

theorem Computes.fold {e : Expr} {v : Value} (h : e.Computes (.ok v)) :
    (fold e).literalValue? = some v := by
  obtain ⟨-, hcomputes⟩ | ⟨w, hw, hliteral⟩ := fold_cases e
  · exact absurd h (hcomputes v)
  · have hrun := hw.evaluate Environment.empty ()
    rw [h.evaluate] at hrun
    cases hrun
    exact hliteral

theorem uses_of_literalValue? {e : Expr} {v : Value} (h : e.literalValue? = some v) :
    e.uses = [] := by
  cases e <;> first | rfl | cases h

/-- Literals use no names, so folding does not change the uses of names. -/
theorem uses_fold (e : Expr) : (fold e).uses = e.uses := by
  obtain ⟨hfold, -⟩ | ⟨v, hv, hliteral⟩ := fold_cases e
  · rw [hfold]
  · rw [uses_of_literalValue? hliteral]
    generalize Except.ok v = result at hv
    cases hv with
    | unary ha => rw [uses, uses_of_literalValue? ha]
    | binary ha hb =>
        rw [uses, uses_of_literalValue? ha, uses_of_literalValue? hb, List.append_nil]

/-! ## Simplification, step by step -/

theorem optimizeAll_eq_map (items : List Expr) : optimizeAll items = items.map optimize := by
  induction items with
  | nil => rfl
  | cons first rest ih => rw [optimizeAll, ih, List.map_cons]

theorem optimize_of_literalValue? {e : Expr} {v : Value} (hliteral : e.literalValue? = some v) :
    e.optimize = e := by
  cases e <;> first | rfl | cases hliteral

theorem decides_of_decided? {op : BinaryOp} {left : Expr} {a v : Value}
    (ha : left.literalValue? = some a) (hdecided : op.decided? a = some (.ok v)) :
    decides op left := by
  cases op
  case or | and =>
    cases left <;> cases ha
    case bool b => cases b <;> first | rfl | cases hdecided
    all_goals cases hdecided
  case coalesce => exact isLiteral_iff_literalValue?.2 ⟨a, ha⟩
  all_goals cases hdecided

/-- A binary operator is replaced by its right operand, if that stands in for nil; or by its left
operand, if that decides; or it is folded. -/
theorem optimize_binary_cases (op : BinaryOp) (left right : Expr) :
    (op = .coalesce ∧ left.optimize = nil ∧ (binary op left right).optimize = right.optimize) ∨
      (∃ v, left.optimize.literalValue? = some v ∧ op.decided? v = some (.ok v) ∧
        (binary op left right).optimize = left.optimize) ∨
      (¬ decides op left.optimize ∧
        (binary op left right).optimize = fold (binary op left.optimize right.optimize)) := by
  rw [optimize]
  by_cases hnil : op = .coalesce ∧ left.optimize.isNil
  · have hleft : left.optimize = nil := by
      cases h : left.optimize <;> simp [h, isNil] at hnil ⊢
    exact .inl ⟨hnil.1, hleft, if_pos hnil⟩
  · by_cases hdecides : decides op left.optimize
    · obtain ⟨v, hv, hdecided⟩ := decided?_of_decides hnil hdecides
      exact .inr (.inl ⟨v, hv, hdecided, by rw [if_neg hnil, if_pos hdecides]⟩)
    · exact .inr (.inr ⟨hdecides, by rw [if_neg hnil, if_neg hdecides]⟩)

/-- A conditional is replaced by a branch, if its condition becomes a literal truth value. -/
theorem optimize_conditional_cases (condition thenCase elseCase : Expr) :
    (∃ b, condition.optimize = bool b ∧ (conditional condition thenCase elseCase).optimize =
      (if b then thenCase else elseCase).optimize) ∨
      ((∀ b, condition.optimize ≠ bool b) ∧ (conditional condition thenCase elseCase).optimize =
        conditional condition.optimize thenCase.optimize elseCase.optimize) := by
  rw [optimize]
  split
  case h_1 htrue => exact .inl ⟨true, htrue, rfl⟩
  case h_2 hfalse => exact .inl ⟨false, hfalse, rfl⟩
  case h_3 htrue hfalse => exact .inr ⟨Bool.forall_bool.2 ⟨hfalse, htrue⟩, rfl⟩

/-! ## The normal form -/

theorem normal_iff {e : Expr} : e.Normal ↔ ¬ e.Redex ∧ ∀ operand ∈ e.operands, operand.Normal :=
  forall_contains_iff

theorem normal_of_literalValue? {e : Expr} {v : Value} (hliteral : e.literalValue? = some v) :
    e.Normal := by
  refine normal_iff.2 ⟨fun hredex => ?_, by simp [operands_of_literalValue? hliteral]⟩
  cases hredex with
  | computes hliterals _ => cases e <;> first | exact hliterals | cases hliteral
  | _ => cases hliteral

/-- A binary operator can be simplified where it stands just when its left operand decides it or
it computes a value. -/
theorem redex_binary_iff {op : BinaryOp} {left right : Expr} : (binary op left right).Redex ↔
    decides op left ∨ ∃ v, (binary op left right).Computes (.ok v) := by
  constructor
  · intro hredex
    cases hredex with
    | and | or => exact .inl rfl
    | coalesce _ hliteral => exact .inl hliteral
    | computes hliterals hreturns => exact .inr ⟨_, computes_of_returns hliterals hreturns⟩
  · rintro (hdecides | ⟨v, hv⟩)
    · unfold decides at hdecides
      split at hdecides
      · exact .and right
      · exact .or right
      · exact .coalesce right hdecides
      · cases hdecides
    · exact hv.redex

/-- Folding leads to a normal form, if nothing but folding is left to do. -/
theorem normal_fold {e : Expr} (hoperands : ∀ operand ∈ e.operands, operand.Normal)
    (hroot : e.Redex → ∃ v, e.Computes (.ok v)) : (fold e).Normal := by
  obtain ⟨hfold, hcomputes⟩ | ⟨v, -, hliteral⟩ := fold_cases e
  · rw [hfold]
    exact normal_iff.2 ⟨fun hredex => (hroot hredex).elim hcomputes, hoperands⟩
  · exact normal_of_literalValue? hliteral

/-- The members of a list or the arguments of a call are all that can be simplified there. -/
theorem normal_of_operands {e : Expr} (hredex : ¬ e.Redex) {items : List Expr}
    (hitems : e.operands = optimizeAll items) (ih : ∀ item ∈ items, item.optimize.Normal) :
    e.Normal := by
  refine normal_iff.2 ⟨hredex, ?_⟩
  rw [hitems, optimizeAll_eq_map]
  exact List.forall_mem_map.2 ih

theorem normal_optimize (e : Expr) : e.optimize.Normal := by
  induction e using Expr.induction with
  | literal e v hliteral =>
      rw [optimize_of_literalValue? hliteral]
      exact normal_of_literalValue? hliteral
  | list items ih =>
      refine normal_of_operands (fun hredex => ?_) rfl ih
      cases hredex with
      | computes hliterals _ => exact hliterals
  | ident name =>
      refine normal_iff.2 ⟨fun hredex => ?_, by simp [optimize, operands]⟩
      cases hredex with
      | computes hliterals _ => exact hliterals
  | call name args ih =>
      refine normal_of_operands (fun hredex => ?_) rfl ih
      cases hredex with
      | computes hliterals _ => exact hliterals
  | unary op operand ih =>
      rw [optimize]
      refine normal_fold (by simpa [operands] using ih) fun hredex => ?_
      cases hredex with
      | computes hliterals hreturns => exact ⟨_, computes_of_returns hliterals hreturns⟩
  | binary op left right ihleft ihright =>
      obtain ⟨-, -, heq⟩ | ⟨v, -, -, heq⟩ | ⟨hdecides, heq⟩ := optimize_binary_cases op left right
      · rwa [heq]
      · rwa [heq]
      · rw [heq]
        refine normal_fold (by simpa [operands] using ⟨ihleft, ihright⟩) fun hredex => ?_
        exact (redex_binary_iff.1 hredex).resolve_left hdecides
  | conditional condition thenCase elseCase ihcond ihthen ihelse =>
      obtain ⟨b, -, heq⟩ | ⟨hbool, heq⟩ := optimize_conditional_cases condition thenCase elseCase
      · rw [heq]
        cases b
        · exact ihelse
        · exact ihthen
      · rw [heq]
        refine normal_iff.2 ⟨fun hredex => ?_, by simpa [operands] using ⟨ihcond, ihthen, ihelse⟩⟩
        generalize hcondition : condition.optimize = condition' at hredex
        cases hredex with
        | conditional b => exact hbool b hcondition
        | computes hliterals _ => exact hliterals

theorem optimizeAll_eq_self {items : List Expr} (h : ∀ item ∈ items, item.optimize = item) :
    optimizeAll items = items := by
  rw [optimizeAll_eq_map]
  exact (List.map_congr_left h).trans (List.map_id items)

/-- Simplification leaves a normal form alone. -/
theorem optimize_of_normal {e : Expr} (hnormal : e.Normal) : e.optimize = e := by
  induction e using Expr.induction with
  | literal e v hliteral => exact optimize_of_literalValue? hliteral
  | list items ih =>
      obtain ⟨-, hitems⟩ := normal_iff.1 hnormal
      rw [optimize, optimizeAll_eq_self fun item hitem => ih item hitem (hitems item hitem)]
  | ident name => rfl
  | call name args ih =>
      obtain ⟨-, hargs⟩ := normal_iff.1 hnormal
      rw [optimize, optimizeAll_eq_self fun arg harg => ih arg harg (hargs arg harg)]
  | unary op operand ih =>
      obtain ⟨hredex, hoperands⟩ := normal_iff.1 hnormal
      rw [optimize, ih (hoperands operand List.mem_cons_self)]
      obtain ⟨hfold, -⟩ | ⟨v, hv, -⟩ := fold_cases (unary op operand)
      · exact hfold
      · exact absurd hv.redex hredex
  | binary op left right ihleft ihright =>
      obtain ⟨hredex, hoperands⟩ := normal_iff.1 hnormal
      simp only [operands, List.forall_mem_cons, List.not_mem_nil, false_imp_iff, implies_true,
        and_true] at hoperands
      have hleft := ihleft hoperands.1
      have hright := ihright hoperands.2
      rw [redex_binary_iff, not_or] at hredex
      obtain ⟨rfl, hnil, -⟩ | ⟨v, hv, hdecided, -⟩ | ⟨-, heq⟩ :=
        optimize_binary_cases op left right
      · rw [hleft] at hnil
        subst hnil
        exact absurd rfl hredex.1
      · rw [hleft] at hv
        exact absurd (decides_of_decided? hv hdecided) hredex.1
      · rw [heq, hleft, hright]
        obtain ⟨hfold, -⟩ | ⟨v, hv, -⟩ := fold_cases (binary op left right)
        · exact hfold
        · exact absurd ⟨v, hv⟩ hredex.2
  | conditional condition thenCase elseCase ihcond ihthen ihelse =>
      obtain ⟨hredex, hoperands⟩ := normal_iff.1 hnormal
      simp only [operands, List.forall_mem_cons, List.not_mem_nil, false_imp_iff, implies_true,
        and_true] at hoperands
      obtain ⟨b, hb, -⟩ | ⟨-, heq⟩ := optimize_conditional_cases condition thenCase elseCase
      · rw [ihcond hoperands.1] at hb
        subst hb
        exact absurd (.conditional b _ _) hredex
      · rw [heq, ihcond hoperands.1, ihthen hoperands.2.1, ihelse hoperands.2.2]

/-! ## Decided branches -/

/-- An expression settles to a value if literals and the operators between them decide it: no name
is read, no function is called, and no failure comes first. -/
inductive Settles : Expr → Value → Prop
  | literal {e : Expr} {v : Value} : e.literalValue? = some v → Settles e v
  | unary {op : UnaryOp} {operand : Expr} {a v : Value} :
      Settles operand a → op.apply a = .ok v → Settles (.unary op operand) v
  | decided {op : BinaryOp} {left right : Expr} {a v : Value} :
      Settles left a → op.decided? a = some (.ok v) → Settles (.binary op left right) v
  | combined {op : BinaryOp} {left right : Expr} {a b v : Value} : Settles left a →
      Settles right b → op.decided? a = none → op.combine a b = .ok v →
      Settles (.binary op left right) v
  | conditional {condition thenCase elseCase : Expr} {b : Bool} {v : Value} :
      Settles condition (.bool b) → Settles (if b then thenCase else elseCase) v →
      Settles (.conditional condition thenCase elseCase) v

/-- The uses of names outside of decided branches. The right operand of a binary operator is one if
the left operand settles to a value that decides the operator, and a branch of a conditional is
one if the condition settles to the truth value of the other branch. -/
inductive Live : Use → Expr → Prop
  | read (name : String) : Live (.read name) (.ident name)
  | called (name : String) (args : List Expr) : Live (.called name) (.call name args)
  | item {use : Use} {items : List Expr} {item : Expr} :
      item ∈ items → Live use item → Live use (.list items)
  | arg {use : Use} {name : String} {args : List Expr} {arg : Expr} :
      arg ∈ args → Live use arg → Live use (.call name args)
  | operand {use : Use} {op : UnaryOp} {operand : Expr} :
      Live use operand → Live use (.unary op operand)
  | left {use : Use} {op : BinaryOp} {left right : Expr} :
      Live use left → Live use (.binary op left right)
  | right {use : Use} {op : BinaryOp} {left right : Expr} :
      (∀ a v, left.Settles a → op.decided? a ≠ some (.ok v)) → Live use right →
      Live use (.binary op left right)
  | condition {use : Use} {condition thenCase elseCase : Expr} :
      Live use condition → Live use (.conditional condition thenCase elseCase)
  | branch {use : Use} {condition thenCase elseCase : Expr} (b : Bool) :
      ¬ condition.Settles (.bool !b) → Live use (if b then thenCase else elseCase) →
      Live use (.conditional condition thenCase elseCase)

/-- What settles is simplified to the literal of its value. -/
theorem Settles.literalValue?_optimize {e : Expr} {v : Value} (h : e.Settles v) :
    e.optimize.literalValue? = some v := by
  induction h with
  | literal hliteral => rwa [optimize_of_literalValue? hliteral]
  | unary _ happly ih =>
      rw [optimize]
      exact Computes.fold (happly ▸ .unary ih)
  | @decided op left right a v _ hdecided ih =>
      obtain ⟨rfl, hnil, -⟩ | ⟨w, hw, -, heq⟩ | ⟨hdecides, -⟩ := optimize_binary_cases op left right
      · rw [hnil] at ih
        cases ih
        cases hdecided
      · obtain ⟨rfl, -⟩ := BinaryOp.decided?_eq_ok hdecided
        rwa [heq]
      · exact absurd (decides_of_decided? ih hdecided) hdecides
  | @combined op left right a b v _ _ hnone hcombine ihleft ihright =>
      obtain ⟨rfl, hnil, heq⟩ | ⟨w, hw, hdecided, -⟩ | ⟨-, heq⟩ := optimize_binary_cases op left right
      · rw [hnil] at ihleft
        cases ihleft
        cases hcombine
        rwa [heq]
      · cases hw.symm.trans ihleft
        cases hdecided.symm.trans hnone
      · rw [heq]
        refine Computes.fold ?_
        have houtcome : op.outcome a b = .ok v := by rw [BinaryOp.outcome, hnone, hcombine]; rfl
        exact houtcome ▸ .binary ihleft ihright
  | @conditional condition thenCase elseCase b v _ _ ihcond ihbranch =>
      obtain ⟨c, hc, heq⟩ | ⟨hbool, -⟩ := optimize_conditional_cases condition thenCase elseCase
      · rw [hc] at ihcond
        cases ihcond
        rwa [heq]
      · exact absurd (eq_of_literalValue? ihcond rfl) (hbool b)

theorem settles_of_literalValue?_optimize {e : Expr} {v : Value}
    (h : e.optimize.literalValue? = some v) : e.Settles v := by
  induction e using Expr.induction generalizing v with
  | literal e w hliteral => exact .literal (optimize_of_literalValue? hliteral ▸ h)
  | list items ih => cases h
  | ident name => cases h
  | call name args ih => cases h
  | unary op operand ih =>
      rw [optimize] at h
      obtain ⟨hfold, -⟩ | ⟨w, hw, hliteral⟩ := fold_cases (unary op operand.optimize)
      · rw [hfold] at h
        cases h
      · cases hliteral.symm.trans h
        obtain ⟨a, ha, happly⟩ := computes_unary_iff.1 hw
        exact .unary (ih ha) happly
  | binary op left right ihleft ihright =>
      obtain ⟨rfl, hnil, heq⟩ | ⟨w, hw, hdecided, heq⟩ | ⟨-, heq⟩ := optimize_binary_cases op left right
      · rw [heq] at h
        exact .combined (ihleft (congrArg literalValue? hnil)) (ihright h) rfl rfl
      · rw [heq] at h
        cases hw.symm.trans h
        exact .decided (ihleft hw) hdecided
      · rw [heq] at h
        obtain ⟨hfold, -⟩ | ⟨w, hw, hliteral⟩ :=
          fold_cases (binary op left.optimize right.optimize)
        · rw [hfold] at h
          cases h
        · cases hliteral.symm.trans h
          obtain ⟨a, b, ha, hb, houtcome⟩ := computes_binary_iff.1 hw
          obtain hdecided | ⟨hnone, hcombine⟩ := BinaryOp.outcome_cases houtcome
          · exact .decided (ihleft ha) hdecided
          · exact .combined (ihleft ha) (ihright hb) hnone hcombine
  | conditional condition thenCase elseCase ihcond ihthen ihelse =>
      obtain ⟨b, hb, heq⟩ | ⟨-, heq⟩ := optimize_conditional_cases condition thenCase elseCase
      · rw [heq] at h
        refine .conditional (ihcond (congrArg literalValue? hb)) ?_
        cases b
        · exact ihelse h
        · exact ihthen h
      · rw [heq] at h
        cases h

/-- An expression settles to a value just when it is simplified to the literal of that value. -/
theorem settles_iff {e : Expr} {v : Value} : e.Settles v ↔ e.optimize.literalValue? = some v :=
  ⟨Settles.literalValue?_optimize, settles_of_literalValue?_optimize⟩

theorem mem_usesAll_optimizeAll {use : Use} {items : List Expr}
    (ih : ∀ item ∈ items, (use ∈ item.optimize.uses ↔ Live use item)) :
    use ∈ usesAll (optimizeAll items) ↔ ∃ item ∈ items, Live use item := by
  rw [usesAll_eq_flatMap, optimizeAll_eq_map, List.flatMap_map, List.mem_flatMap]
  exact exists_congr fun item => and_congr_right (ih item)

/-- A simplified expression has the uses of names outside of decided branches, and no others. -/
theorem mem_uses_optimize {use : Use} {e : Expr} : use ∈ e.optimize.uses ↔ Live use e := by
  induction e using Expr.induction with
  | literal e v hliteral =>
      rw [optimize_of_literalValue? hliteral, uses_of_literalValue? hliteral]
      refine iff_of_false List.not_mem_nil fun hlive => ?_
      cases hlive <;> cases hliteral
  | list items ih =>
      rw [optimize, uses, mem_usesAll_optimizeAll ih]
      constructor
      · rintro ⟨item, hitem, hlive⟩
        exact .item hitem hlive
      · intro hlive
        cases hlive with
        | item hitem hlive => exact ⟨_, hitem, hlive⟩
  | ident name =>
      have huses : (ident name).optimize.uses = [.read name] := rfl
      rw [huses, List.mem_singleton]
      constructor
      · rintro rfl
        exact .read name
      · rintro ⟨⟩
        rfl
  | call name args ih =>
      rw [optimize, uses, List.mem_cons, mem_usesAll_optimizeAll ih]
      constructor
      · rintro (rfl | ⟨arg, harg, hlive⟩)
        · exact .called name args
        · exact .arg harg hlive
      · intro hlive
        cases hlive with
        | called => exact .inl rfl
        | arg harg hlive => exact .inr ⟨_, harg, hlive⟩
  | unary op operand ih =>
      rw [optimize, uses_fold, uses, ih]
      constructor
      · exact .operand
      · intro hlive
        cases hlive with
        | operand hlive => exact hlive
  | binary op left right ihleft ihright =>
      have hnone {v : Value} (hv : left.optimize.literalValue? = some v) : ¬ Live use left := by
        rw [← ihleft, uses_of_literalValue? hv]
        exact List.not_mem_nil
      obtain ⟨rfl, hnil, heq⟩ | ⟨w, hw, hdecided, heq⟩ | ⟨hdecides, heq⟩ :=
        optimize_binary_cases op left right
      · rw [heq, ihright]
        have hleft : left.optimize.literalValue? = some .nil := congrArg literalValue? hnil
        constructor
        · refine .right fun a v ha hdecided => ?_
          cases (settles_iff.1 ha).symm.trans hleft
          cases hdecided
        · intro hlive
          cases hlive with
          | left hlive => exact absurd hlive (hnone hleft)
          | right _ hlive => exact hlive
      · rw [heq, ihleft]
        refine iff_of_false (hnone hw) fun hlive => ?_
        cases hlive with
        | left hlive => exact hnone hw hlive
        | right hopen _ => exact hopen w w (settles_iff.2 hw) hdecided
      · rw [heq, uses_fold, uses, List.mem_append, ihleft, ihright]
        constructor
        · rintro (hlive | hlive)
          · exact .left hlive
          · exact .right (fun a v ha hdecided =>
              hdecides (decides_of_decided? (settles_iff.1 ha) hdecided)) hlive
        · intro hlive
          cases hlive with
          | left hlive => exact .inl hlive
          | right _ hlive => exact .inr hlive
  | conditional condition thenCase elseCase ihcond ihthen ihelse =>
      obtain ⟨b, hb, heq⟩ | ⟨hbool, heq⟩ := optimize_conditional_cases condition thenCase elseCase
      · have hsettles : condition.Settles (.bool b) := settles_iff.2 (congrArg literalValue? hb)
        have hbranch : use ∈ (if b then thenCase else elseCase).optimize.uses ↔
            Live use (if b then thenCase else elseCase) := by
          cases b
          · exact ihelse
          · exact ihthen
        rw [heq, hbranch]
        constructor
        · refine .branch b fun hother => ?_
          have hvalue := settles_iff.1 hother
          rw [hb] at hvalue
          cases b <;> cases hvalue
        · intro hlive
          cases hlive with
          | condition hlive =>
              rw [← ihcond, hb] at hlive
              cases hlive
          | branch c hopen hlive =>
              obtain rfl : c = b := by
                cases b <;> cases c <;> first | rfl | exact absurd hsettles hopen
              exact hlive
      · have hopen (b : Bool) : ¬ condition.Settles (.bool b) := fun hsettles =>
          hbool b (eq_of_literalValue? (settles_iff.1 hsettles) rfl)
        rw [heq, uses, List.mem_append, List.mem_append, ihcond, ihthen, ihelse]
        constructor
        · rintro ((hlive | hlive) | hlive)
          · exact .condition hlive
          · exact .branch true (hopen _) hlive
          · exact .branch false (hopen _) hlive
        · intro hlive
          cases hlive with
          | condition hlive => exact .inl (.inl hlive)
          | branch b _ hlive =>
              cases b
              · exact .inr hlive
              · exact .inl (.inr hlive)

end Expr

/-! ## The names of a condition -/

theorem Fields.mem_of_iff {e : Expr} {name : String} :
    (name ∈ (Fields.of e).identifiers ↔ ∃ use ∈ e.uses, use.name = name) ∧
      (name ∈ (Fields.of e).inputs ↔ ∃ use ∈ e.uses, use.isInput ∧ use.name = name) ∧
      (name ∈ (Fields.of e).methods ↔ ∃ use ∈ e.uses, use.isCall ∧ use.name = name) := by
  simp [Fields.of, NameSet.mem_ofList, and_assoc]

theorem exists_of_extractFields {source : String} {fields : Fields}
    (h : extractFields source = .ok fields) :
    ∃ tree, Expr.parse source = .ok tree ∧ fields = Fields.of tree.optimize := by
  rw [extractFields] at h
  cases hroot : prepareTree .blank source with
  | error err =>
      rw [hroot] at h
      cases h
  | ok root =>
      rw [hroot] at h
      cases h
      obtain ⟨-, tree, hparse, -, rfl⟩ := prepareTree_eq_ok_iff.1 hroot
      exact ⟨tree, hparse, rfl⟩

namespace Expr

/-- One pass of simplification is enough. Of every expression it leaves a normal form: no part is a
logical operator that its left operand decides, a stand-in for a literal, a conditional on a
literal truth value, or an operator on literals that evaluates to a value. Simplifying it again
changes nothing. The names that are found in a source are those that its expression uses outside
of decided branches, be it at all, as inputs or in calls. -/
theorem optimize_reaches_normal_form (e : Expr) :
    e.optimize.Normal ∧ e.optimize.optimize = e.optimize ∧
      ∀ source fields, parse source = .ok e → extractFields source = .ok fields → ∀ name,
        (name ∈ fields.identifiers ↔ ∃ use, Live use e ∧ use.name = name) ∧
        (name ∈ fields.inputs ↔ ∃ use, Live use e ∧ use.isInput ∧ use.name = name) ∧
        (name ∈ fields.methods ↔ ∃ use, Live use e ∧ use.isCall ∧ use.name = name) := by
  refine ⟨normal_optimize e, optimize_of_normal (normal_optimize e), ?_⟩
  intro source fields hparse hfields name
  obtain ⟨tree, htree, rfl⟩ := exists_of_extractFields hfields
  cases hparse.symm.trans htree
  simpa only [mem_uses_optimize] using @Fields.mem_of_iff e.optimize name

/-- Six is more than five, so `b` is in a decided branch and not among the names. -/
theorem names_outside_decided_branches :
    let source := "(2 * 3 > 5 ? a : b) == (nil ?? c)"
    ∃ e, parse source = .ok e ∧
      extractFields source = .ok ⟨["a", "c"], ["a", "c"], []⟩ ∧
      e.optimize = .binary .eq (.ident "a") (.ident "c") ∧ e.optimize.optimize = e.optimize ∧
      ¬ ∃ use, Live use e ∧ use.name = "b" := by
  intro source
  let e : Expr := .binary .eq
    (.conditional (.binary .gt (.binary .mul (.int 2) (.int 3)) (.int 5)) (.ident "a") (.ident "b"))
    (.binary .coalesce .nil (.ident "c"))
  have hparse : parse "(2 * 3 > 5 ? a : b) == (nil ?? c)" = .ok e := rfl
  have hfields : extractFields "(2 * 3 > 5 ? a : b) == (nil ?? c)" =
      .ok ⟨["a", "c"], ["a", "c"], []⟩ := by decide +kernel
  obtain ⟨-, hagain, hnames⟩ := optimize_reaches_normal_form e
  refine ⟨e, hparse, hfields, rfl, hagain, ?_⟩
  rw [← (hnames source _ hparse hfields "b").1]
  decide

end Expr

end Targeting.Condition
