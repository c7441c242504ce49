/-
# Operands and parts

An expression is made of operands: the members of a list, the arguments of a call, the operands
of an operator, the condition and the branches of a conditional. Its parts are itself, its
operands, their operands, and so on. What holds of all parts of an expression holds of the
expression itself and of all parts of its operands; proofs about all parts follow this cut.
-/

import Targeting.Proofs.Condition.Progress

namespace Targeting.Condition

namespace Expr

/-- What an expression is made of, from left to right. -/
def operands : Expr → List Expr
  | list items => items
  | call _ args => args
  | unary _ operand => [operand]
  | binary _ left right => [left, right]
  | conditional condition thenCase elseCase => [condition, thenCase, elseCase]
  | nil | bool _ | int _ | float _ | text _ | ident _ => []

theorem operands_of_literalValue? {e : Expr} {v : Value} (hliteral : e.literalValue? = some v) :
    e.operands = [] := by
  cases e <;> first | rfl | cases hliteral

/-- Induction over expressions: from the operands to the whole. -/
@[elab_as_elim]
theorem inductionOnOperands {motive : Expr → Prop}
    (whole : ∀ e, (∀ operand ∈ e.operands, motive operand) → motive e) (e : Expr) : motive e := by
  induction e using Expr.induction with
  | literal e v hliteral => exact whole e (by simp [operands_of_literalValue? hliteral])
  | list items ih => exact whole _ ih
  | ident name => exact whole _ (by simp [operands])
  | call name args ih => exact whole _ ih
  | unary op operand ih => exact whole _ (by simpa [operands] using ih)
  | binary op left right ihleft ihright => exact whole _ (by simpa [operands] using ⟨ihleft, ihright⟩)
  | conditional condition thenCase elseCase ihcondition ihthen ihelse =>
      exact whole _ (by simpa [operands] using ⟨ihcondition, ihthen, ihelse⟩)

theorem Contains.of_mem_operands {e part operand : Expr} (hpart : e.Contains part)
    (hoperand : operand ∈ part.operands) : e.Contains operand := by
  cases part with
  | list items => exact hpart.item hoperand
  | call name args => exact hpart.arg hoperand
  | unary op inner =>
      obtain rfl := List.mem_singleton.1 hoperand
      exact hpart.operand
  | binary op left right =>
      obtain rfl | rfl : operand = left ∨ operand = right := by simpa [operands] using hoperand
      · exact hpart.left
      · exact hpart.right
  | conditional condition thenCase elseCase =>
      obtain rfl | rfl | rfl : operand = condition ∨ operand = thenCase ∨ operand = elseCase := by
        simpa [operands] using hoperand
      · exact hpart.condition
      · exact hpart.thenCase
      · exact hpart.elseCase
  | _ => cases hoperand

theorem Contains.trans {e part inner : Expr} (hpart : e.Contains part)
    (hinner : part.Contains inner) : e.Contains inner := by
  induction hinner with
  | self => exact hpart
  | item _ hmem ih => exact ih.item hmem
  | arg _ hmem ih => exact ih.arg hmem
  | operand _ ih => exact ih.operand
  | left _ ih => exact ih.left
  | right _ ih => exact ih.right
  | condition _ ih => exact ih.condition
  | thenCase _ ih => exact ih.thenCase
  | elseCase _ ih => exact ih.elseCase

/-- The parts of an expression are itself and the parts of its operands. -/
theorem contains_iff {e part : Expr} :
    e.Contains part ↔ part = e ∨ ∃ operand ∈ e.operands, operand.Contains part := by
  have hstep {whole inner : Expr} (hinner : inner ∈ whole.operands) :
      (whole = e ∨ ∃ operand ∈ e.operands, operand.Contains whole) →
        inner = e ∨ ∃ operand ∈ e.operands, operand.Contains inner := by
    rintro (rfl | ⟨operand, hoperand, hwhole⟩)
    · exact .inr ⟨inner, hinner, .self⟩
    · exact .inr ⟨operand, hoperand, hwhole.of_mem_operands hinner⟩
  constructor
  · intro h
    induction h with
    | self => exact .inl rfl
    | @item items _ _ hmem ih => exact hstep (show _ ∈ (list items).operands from hmem) ih
    | @arg name args _ _ hmem ih => exact hstep (show _ ∈ (call name args).operands from hmem) ih
    | operand _ ih | left _ ih | right _ ih | condition _ ih | thenCase _ ih | elseCase _ ih =>
        exact hstep (by simp [operands]) ih
  · rintro (rfl | ⟨operand, hoperand, h⟩)
    · exact .self
    · exact (Contains.self.of_mem_operands hoperand).trans h

/-- What all parts have in common, the whole and the parts of its operands have. -/
theorem forall_contains_iff {holds : Expr → Prop} {e : Expr} :
    (∀ part, e.Contains part → holds part) ↔
      holds e ∧ ∀ operand ∈ e.operands, ∀ part, operand.Contains part → holds part := by
  constructor
  · intro h
    exact ⟨h e .self, fun operand hoperand part hpart =>
      h part (contains_iff.2 (.inr ⟨operand, hoperand, hpart⟩))⟩
  · rintro ⟨hself, hinside⟩ part hpart
    obtain rfl | ⟨operand, hoperand, hpart⟩ := contains_iff.1 hpart
    · exact hself
    · exact hinside operand hoperand part hpart

theorem usesAll_eq_flatMap (items : List Expr) : usesAll items = items.flatMap uses := by
  induction items with
  | nil => rfl
  | cons first rest ih => rw [usesAll, ih, List.flatMap_cons]

end Expr

end Targeting.Condition
