/-
# Simplification keeps the meaning

A simplified expression and the expression itself are the same computation: in
every world, and from every state of it, they give the same value or fail with
the same error, ask the same questions in the same order, and leave the world in
the same state. Worlds may answer from memory, fail or break down; nothing is
assumed about them.
-/

import Targeting.Condition.Optimize
import Targeting.Proofs.Condition.Simulation

namespace Targeting.Condition

namespace Expr

variable {σ : Type} (access : Access σ)

theorem literalValue?_of_ofValue? {v : Value} {e : Expr} (hv : ofValue? v = some e) :
    e.literalValue? = some v := by
  cases v <;> cases hv <;> rfl

/-- An operator on literals computes the same in every world and asks nothing. -/
theorem exists_result_of_isConstantOperation {e : Expr} (hconstant : e.isConstantOperation) :
    ∃ result : Except EvalError Value,
      ∀ {σ : Type} (access : Access σ), e.evaluateWith access = liftExcept result := by
  cases e with
  | unary op operand =>
      rw [isConstantOperation, Bool.and_eq_true] at hconstant
      obtain ⟨v, hv⟩ := isLiteral_iff_literalValue?.1 hconstant.1
      refine ⟨op.apply v, fun access => ?_⟩
      rw [evaluateWith, evaluateWith_of_literalValue? access hv, pure_bind]
  | binary op left right =>
      simp only [isConstantOperation, Bool.and_eq_true, isLiteral_iff_literalValue?]
        at hconstant
      obtain ⟨⟨a, ha⟩, b, hb⟩ := hconstant
      refine ⟨(op.decided? a).getD (op.combine a b), fun access => ?_⟩
      rw [evaluateWith, evaluateWith_of_literalValue? access ha, pure_bind,
        evaluateWith_of_literalValue? access hb]
      cases op.decided? a with
      | some result => rfl
      | none => exact pure_bind _ _
  | _ => simp [isConstantOperation] at hconstant

theorem evaluateWith_fold (e : Expr) : (fold e).evaluateWith access = e.evaluateWith access := by
  unfold fold
  split
  case isFalse => rfl
  case isTrue hconstant =>
    obtain ⟨result, hresult⟩ := exists_result_of_isConstantOperation hconstant
    have hempty : (e.evaluate Environment.empty).run () = (result, ()) := by
      rw [e.evaluate_eq_evaluateWith, hresult, Run.run_liftExcept_apply]
    rw [hempty]
    cases result with
    | error err => rfl
    | ok v =>
        cases hv : ofValue? v with
        | none => simp only [hv, Option.getD_none]
        | some literal =>
            simp only [hv, Option.getD_some]
            rw [evaluateWith_of_literalValue? access (literalValue?_of_ofValue? hv), hresult]
            rfl

/-- A left operand that decides a binary operator is a literal, and the literal's
value is the value of the whole. -/
theorem decided?_of_decides {op : BinaryOp} {left : Expr}
    (hnil : ¬ (op = .coalesce ∧ left.isNil)) (hdecides : decides op left) :
    ∃ v, left.literalValue? = some v ∧ op.decided? v = some (.ok v) := by
  unfold decides at hdecides
  split at hdecides
  · exact ⟨_, rfl, rfl⟩
  · exact ⟨_, rfl, rfl⟩
  · obtain ⟨v, hv⟩ := isLiteral_iff_literalValue?.1 hdecides
    refine ⟨v, hv, ?_⟩
    cases left <;> cases hv <;> first | rfl | exact absurd ⟨rfl, rfl⟩ hnil
  · cases hdecides

theorem evaluateAllWith_optimizeAll {items : List Expr}
    (hitems : ∀ item ∈ items, item.optimize.evaluateWith access = item.evaluateWith access) :
    evaluateAllWith access (optimizeAll items) = evaluateAllWith access items := by
  induction items with
  | nil => rfl
  | cons first rest ih =>
      obtain ⟨hfirst, hrest⟩ := List.forall_mem_cons.1 hitems
      rw [optimizeAll, evaluateAllWith, evaluateAllWith, hfirst, ih hrest]

theorem evaluateWith_optimize (e : Expr) :
    e.optimize.evaluateWith access = e.evaluateWith access := by
  induction e using Expr.induction with
  | literal e v hliteral => cases e <;> first | rfl | cases hliteral
  | list items ih =>
      rw [optimize, evaluateWith, evaluateWith, evaluateAllWith_optimizeAll access ih]
  | ident name => rfl
  | call name args ih =>
      rw [optimize, evaluateWith, evaluateWith, evaluateAllWith_optimizeAll access ih]
  | unary op operand ih => rw [optimize, evaluateWith_fold, evaluateWith, evaluateWith, ih]
  | binary op left right ihleft ihright =>
      rw [optimize, evaluateWith, ← ihleft, ← ihright]
      split
      case isTrue hnil =>
        have hleft : left.optimize = nil := by
          cases hopt : left.optimize <;> simp [hopt, isNil] at hnil ⊢
        rw [hleft, evaluateWith_of_literalValue? access (e := nil) rfl, pure_bind, hnil.1]
        exact (bind_pure _).symm
      case isFalse hnil =>
        split
        case isTrue hdecides =>
          obtain ⟨v, hv, hdecided⟩ := decided?_of_decides hnil hdecides
          rw [evaluateWith_of_literalValue? access hv, pure_bind, hdecided]
          rfl
        case isFalse => rw [evaluateWith_fold, evaluateWith]
  | conditional condition thenCase elseCase ihcond ihthen ihelse =>
      rw [optimize, evaluateWith, ← ihcond, ← ihthen, ← ihelse]
      split
      · rename_i hcond
        rw [hcond]
        rfl
      · rename_i hcond
        rw [hcond]
        rfl
      · rw [evaluateWith]

theorem evaluate_optimize (env : Environment σ) (e : Expr) :
    e.optimize.evaluate env = e.evaluate env := by
  rw [evaluate_eq_evaluateWith, evaluate_eq_evaluateWith, evaluateWith_optimize]

/-- Simplification keeps the meaning of every expression in every world. Seen
through a record of what the world is asked, the simplified expression gives the
same value or fails with the same error, reads the same properties and calls the
same functions with the same arguments, each in the same order, and leaves the
world, its clock and its random numbers included, in the same state. Of the
functions that a condition computes by itself it invokes the same ones too. The
record only watches: without it the result and the state are those of the run
that it watched. -/
theorem optimize_keeps_meaning (env : Environment σ) (e : Expr) (s : σ) :
    let before := (e.evaluate env.recorded).run (s, .none)
    let after := (e.optimize.evaluate env.recorded).run (s, .none)
    after.1 = before.1 ∧ after.2.2.reads = before.2.2.reads ∧
      after.2.2.calls = before.2.2.calls ∧ after.2.1 = before.2.1 ∧
      e.optimize.invocations env s = e.invocations env s ∧
      (e.evaluate env).run s = (before.1, before.2.1) := by
  intro before after
  have hsame : after = before := by
    simp only [after, before, evaluate_optimize]
  obtain ⟨hresult, hstate⟩ :=
    evaluate_simulates (e := e) (Environment.agreesOn_recorded _ env) s (s, .none) rfl
  refine ⟨by rw [hsame], by rw [hsame], by rw [hsame], by rw [hsame], ?_, ?_⟩
  · rw [invocations, invocations, evaluateWith_optimize]
  · exact Prod.ext hresult hstate

end Expr

end Targeting.Condition
