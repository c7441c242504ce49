/-
# Failures of operators

Operators are applied to values of all types, but once the check has accepted the
types of the operands little is left that can go wrong. Arithmetic may leave the
words or divide by zero, a pattern may be malformed, and NaN cannot be put in
order. One more failure is left: the check accepts the negation of a time, and no
time has one.
-/

import Targeting.Proofs.Condition.Typing
import Targeting.Proofs.Number.Binary64

namespace Targeting.Condition

open Run

/-! ## Values without an order -/

/-- A value is NaN. -/
def Value.IsNaN (v : Value) : Prop :=
  ∃ x, v = .float x ∧ x.isNaN

theorem isNaN_of_compareFloats_eq_none {x y : Float} (h : compareFloats x y = none) :
    x.isNaN ∨ y.isNaN := by
  rw [compareFloats] at h
  by_cases hlt : x < y
  · rw [if_pos hlt] at h
    cases h
  rw [if_neg hlt] at h
  by_cases hgt : y < x
  · rw [if_pos hgt] at h
    cases h
  rw [if_neg hgt] at h
  cases heq : x == y with
  | true =>
      rw [heq] at h
      cases h
  | false => exact Binary64.isNaN_of_incomparable hlt hgt heq

/-- Numbers are comparable, except for NaN, and so are texts. -/
theorem Value.isNaN_of_compare?_eq_none {a b : Value}
    (hty : a.ty.isNumeric ∧ b.ty.isNumeric ∨ a.ty = .text ∧ b.ty = .text)
    (h : a.compare? b = none) : a.IsNaN ∨ b.IsNaN := by
  have hword (i : Int64) : ¬ (Binary64.ofWord i).isNaN := by
    rw [Binary64.isNaN_ofWord]
    exact nofun
  cases a <;> cases b <;> simp [ty, Ty.isNumeric] at hty
  case text.text => cases h
  case int.int | int.time | time.int | time.time => cases h
  case int.float i x | time.float i x =>
    exact .inr ⟨x, rfl, (isNaN_of_compareFloats_eq_none h).resolve_left (hword i)⟩
  case float.int x i | float.time x i =>
    exact .inl ⟨x, rfl, (isNaN_of_compareFloats_eq_none h).resolve_right (hword i)⟩
  case float.float x y =>
    exact (isNaN_of_compareFloats_eq_none h).imp (⟨x, rfl, ·⟩) (⟨y, rfl, ·⟩)

/-! ## Failures of operators -/

/-- Operators that ask for an order. -/
def BinaryOp.Orders (op : BinaryOp) : Prop :=
  op = .lt ∨ op = .le ∨ op = .gt ∨ op = .ge

/-- What can go wrong with a binary operator that fits the types of its operands:
arithmetic leaves the words or divides by zero, a pattern is malformed, or NaN is
put in order. -/
inductive BinaryOp.Raises (left right : Value) : BinaryOp → EvalError → Prop where
  | integerOverflow {op : BinaryOp} : Raises left right op .integerOverflow
  | divideByZero : Raises left right .rem .divideByZero
  | invalidPattern {pattern : String} : right = .text pattern → Regex.parse? pattern = none →
      Raises left right .matching (.invalidPattern pattern)
  | incomparable {op : BinaryOp} : op.Orders → left.IsNaN ∨ right.IsNaN →
      Raises left right op (.binaryOperands op left.ty right.ty)

namespace BinaryOp

variable {op : BinaryOp} {left right v : Value} {ty : Ty} {err : EvalError}

theorem eq_integerOverflow_of_exactly {wrap : Int64 → Value} {result : Option Int64}
    (h : exactly wrap result = .error err) : err = .integerOverflow := by
  cases result with
  | some i => cases h
  | none =>
      cases h
      rfl

/-- The check lets numbers be put in order, and texts. -/
theorem operands_of_orders (hop : op.Orders) (hty : op.resultTy? left.ty right.ty = some ty) :
    left.ty.isNumeric ∧ right.ty.isNumeric ∨ left.ty = .text ∧ right.ty = .text := by
  rcases hop with rfl | rfl | rfl | rfl <;> simp [resultTy?] at hty <;> exact hty.1

/-- An operator that fits the types of its operands fails only as `Raises` says. -/
theorem raises_of_combine (hty : op.resultTy? left.ty right.ty = some ty)
    (h : op.combine left right = .error err) : op.Raises left right err := by
  -- One group of operators after the other. Operands that the check refuses are
  -- out by `hty`, and operands that the operator computes with are out by `h`.
  cases op
  case or | and =>
    cases right <;> cases h
    all_goals cases left <;> cases hty
  case eq | ne | coalesce => cases h
  case lt | le | gt | ge =>
    cases horder : left.compare? right with
    | some order =>
        simp only [combine, apply, horder] at h
        cases h
    | none =>
        simp only [combine, apply, horder] at h
        cases h
        have hoperands := operands_of_orders (by simp [Orders]) hty
        exact .incomparable (by simp [Orders]) (Value.isNaN_of_compare?_eq_none hoperands horder)
  case mem | notMem =>
    cases right <;> cases h
    all_goals cases left <;> cases hty
  case contains | startsWith | endsWith =>
    cases left <;> cases right <;> cases hty
    cases h
  case matching =>
    cases left <;> cases right <;> cases hty
    rename_i text pattern
    cases hpattern : Regex.parse? pattern with
    | some regex =>
        simp only [combine, apply, testTexts, hpattern] at h
        cases h
    | none =>
        simp only [combine, apply, testTexts, hpattern] at h
        cases h
        exact .invalidPattern rfl hpattern
  case add | sub | mul =>
    cases left <;> cases right <;> cases hty
    all_goals first
      | cases h
      | rw [eq_integerOverflow_of_exactly h]
        exact .integerOverflow
  case div =>
    cases left <;> cases right <;> cases hty
    all_goals cases h
  case rem =>
    cases left <;> cases right <;> cases hty
    rename_i a b
    cases hrem : Word.rem? a b with
    | some i =>
        simp only [combine, apply, hrem] at h
        cases h
    | none =>
        simp only [combine, apply, hrem] at h
        cases h
        exact .divideByZero

/-- What stands in for an absent value has the type of the right operand, if the
type is known. -/
theorem coalesceTy_of_known {leftTy rightTy : Ty} (hknown : coalesceTy leftTy rightTy ≠ .unknown) :
    coalesceTy leftTy rightTy = rightTy ∧ (leftTy = .nil ∨ leftTy = rightTy) := by
  rw [coalesceTy] at hknown ⊢
  by_cases hnil : leftTy = .nil
  · rw [if_pos hnil]
    exact ⟨rfl, .inl hnil⟩
  rw [if_neg hnil] at hknown ⊢
  by_cases hsame : leftTy = rightTy
  · rw [if_pos hsame]
    exact ⟨hsame, .inr hsame⟩
  · rw [if_neg hsame] at hknown
    exact absurd rfl hknown

/-- A left operand that fits settles the value without failing, and the value has
the type that the check gives it. -/
theorem endsIn_decided {rightTy : Ty} {result : Except EvalError Value} {fails : EvalError → Prop}
    (hty : op.resultTy? left.ty rightTy = some ty) (hknown : ty ≠ .unknown)
    (h : op.decided? left = some result) : EndsIn (·.ty = ty) fails result := by
  cases result with
  | ok v =>
      obtain ⟨rfl, hfixed | ⟨rfl, hne⟩⟩ := decided?_eq_ok h
      · exact (resultTy?_of_fixedTy? hfixed hty).symm
      · cases hty
        obtain ⟨hright, hnil | hsame⟩ := coalesceTy_of_known hknown
        · cases v <;> cases hnil
          exact absurd rfl hne
        · exact hsame.trans hright.symm
  | error err =>
      cases op
      case or | and =>
        rcases left with _ | ⟨_ | _⟩ | _ | _ | _ | _ | _ <;> cases h
        all_goals cases hty
      case coalesce => cases left <;> cases h
      all_goals cases h

/-- An operator that fits the types of its operands computes a value of the type
that the check gives it, or it fails for one of the reasons that types do not
exclude. -/
theorem endsIn_combine (hty : op.resultTy? left.ty right.ty = some ty) (hknown : ty ≠ .unknown) :
    EndsIn (·.ty = ty) (op.Raises left right) (op.combine left right) := by
  cases h : op.combine left right with
  | error err => exact raises_of_combine hty h
  | ok v =>
      cases hop : op.fixedTy? with
      | some fixed =>
          obtain rfl := resultTy?_of_fixedTy? hop hty
          exact ty_combine_of_fixedTy? hop h
      | none =>
          by_cases hcoalesce : op = coalesce
          · subst hcoalesce
            cases hty
            cases h
            exact (coalesceTy_of_known hknown).1.symm
          · exact Option.some.inj ((resultTy?_of_combine hop hcoalesce h).symm.trans hty)

end BinaryOp

/-- A unary operator that fits the type of its operand computes a value of the type
that the check gives it, or it overflows, or it is the negation of a time. -/
theorem UnaryOp.endsIn_apply {op : UnaryOp} {operand : Value} {ty : Ty}
    (hty : op.resultTy? operand.ty = some ty) :
    EndsIn (·.ty = ty)
      (fun err => err = .integerOverflow ∨
        (op = .neg ∧ operand.ty = .time) ∧ err = .unaryOperand .neg .time)
      (op.apply operand) := by
  cases op <;> cases operand <;> cases hty
  case not.bool b => exact rfl
  case neg.int i =>
    rw [apply]
    cases Word.neg? i with
    | some negated => exact rfl
    | none => exact .inl rfl
  case neg.float x => exact rfl
  case neg.time millis => exact .inr ⟨⟨rfl, rfl⟩, rfl⟩

theorem Value.exists_bool {v : Value} (h : v.ty.isBoolLike) : ∃ b, v = .bool b := by
  cases v <;> cases h
  exact ⟨_, rfl⟩

end Targeting.Condition
