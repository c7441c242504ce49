/-
# Comparing integers and times

The order of integers and times is that of their words. Whether they are equal is
decided on the nearest floating-point numbers instead, and so is membership in a list.
The two agree as long as rounding keeps the words apart, for example up to two to the
fifty-third: then exactly one of less, equal and greater holds. Beyond it two words may
be equal and in order at the same time, but never are they neither.
-/

import Targeting.Proofs.Condition.Evaluation
import Targeting.Proofs.Number.Nearest

namespace Targeting.Condition

open Binary64 (nearest)

namespace Value

variable {a b : Value} {i j : Int64}

/-- An exact number is that of an integer or of a time. -/
theorem eq_int_or_time (h : a.asNumber? = some (.exact i)) : a = int i ∨ a = time i := by
  cases a <;> cases h
  · exact .inl rfl
  · exact .inr rfl

theorem looselyEquals_iff (ha : a.asNumber? = some (.exact i))
    (hb : b.asNumber? = some (.exact j)) :
    a.looselyEquals b ↔ nearest i.toInt = nearest j.toInt := by
  rw [← Binary64.ofWord_beq_iff]
  obtain rfl | rfl := eq_int_or_time ha <;> obtain rfl | rfl := eq_int_or_time hb <;> rfl

theorem compare?_eq (ha : a.asNumber? = some (.exact i)) (hb : b.asNumber? = some (.exact j)) :
    a.compare? b = some (compare i.toInt j.toInt) := by
  have horder : a.compare? b = some (if i < j then .lt else if j < i then .gt else .eq) := by
    obtain rfl | rfl := eq_int_or_time ha <;> obtain rfl | rfl := eq_int_or_time hb <;> rfl
  simp only [horder, Int64.lt_iff_toInt_lt]
  obtain hlt | heq | hgt := Int.lt_trichotomy i.toInt j.toInt
  · rw [if_pos hlt, Int.compare_eq_lt.2 hlt]
  · rw [if_neg heq.not_lt, if_neg heq.not_gt, Int.compare_eq_eq.2 heq]
  · rw [if_neg hgt.asymm, if_pos hgt, Int.compare_eq_gt.2 hgt]

end Value

/-! ## Operators -/

namespace BinaryOp

variable {a b : Value} {i j : Int64}

/-- Equality asks for the nearest numbers. -/
theorem apply_eq (ha : a.asNumber? = some (.exact i)) (hb : b.asNumber? = some (.exact j)) :
    eq.apply a b = .ok (.bool (nearest i.toInt = nearest j.toInt)) ∧
      ne.apply a b = .ok (.bool !decide (nearest i.toInt = nearest j.toInt)) ∧
      mem.apply a (.list [b]) = .ok (.bool (nearest i.toInt = nearest j.toInt)) ∧
      notMem.apply a (.list [b]) = .ok (.bool !decide (nearest i.toInt = nearest j.toInt)) := by
  have hequals : a.looselyEquals b = decide (nearest i.toInt = nearest j.toInt) :=
    Bool.eq_iff_iff.2 ((Value.looselyEquals_iff ha hb).trans decide_eq_true_iff.symm)
  have hback : b.looselyEquals a = decide (nearest i.toInt = nearest j.toInt) :=
    Bool.eq_iff_iff.2 ((Value.looselyEquals_iff hb ha).trans (eq_comm.trans decide_eq_true_iff.symm))
  have hother : (notMem == mem) = false := rfl
  simp [apply, isMember?, hequals, hback, hother]

/-- The order is that of the words. -/
theorem apply_order (ha : a.asNumber? = some (.exact i)) (hb : b.asNumber? = some (.exact j)) :
    lt.apply a b = .ok (.bool (i.toInt < j.toInt)) ∧
      le.apply a b = .ok (.bool (i.toInt ≤ j.toInt)) ∧
      gt.apply a b = .ok (.bool (j.toInt < i.toInt)) ∧
      ge.apply a b = .ok (.bool (j.toInt ≤ i.toInt)) := by
  simp [apply, Value.compare?_eq ha hb, admits, Int.compare_eq_lt, Int.compare_eq_gt]

end BinaryOp

/-! ## Conditions -/

namespace Expr

variable {σ : Type} {env : Environment σ} {left right : Expr} {s s₁ s₂ : σ} {a b : Value}

/-- An operator that needs both operands evaluates them from left to right. -/
theorem run_binary {op : BinaryOp} (hop : op.decided? a = none)
    (hleft : (left.evaluate env).run s = (.ok a, s₁))
    (hright : (right.evaluate env).run s₁ = (.ok b, s₂)) :
    ((binary op left right).evaluate env).run s = (op.combine a b, s₂) := by
  rw [evaluate_binary, Run.run_bind_of_ok hleft, hop]
  exact (Run.run_bind_of_ok hright).trans (Run.run_liftExcept_apply _ _)

theorem run_list (hright : (right.evaluate env).run s = (.ok b, s₂)) :
    ((list [right]).evaluate env).run s = (.ok (.list [b]), s₂) := by
  have hall : (evaluateAll env [right]).run s = (.ok [b], s₂) := by
    rw [evaluateAll, Run.run_bind_of_ok hright, evaluateAll]
    rfl
  rw [evaluate]
  exact Run.run_bind_of_ok hall

/-- A condition that is evaluated comes out as true or false. -/
def Answers (env : Environment σ) (e : Expr) (s : σ) (answer : Bool) (s' : σ) : Prop :=
  (e.evaluate env).run s = (.ok (.bool answer), s')

/-- The comparisons of integers and times. Order is exact; equality, and membership with it, is that
of the nearest floating-point numbers. So one of less, equal and greater always holds. Only one of
them does, and less or equal is either of the two, unless rounding takes the numbers to the same
one; it never does that to different numbers up to two to the fifty-third. -/
theorem comparisons_agree {i j : Int64} (ha : a.asNumber? = some (.exact i))
    (hb : b.asNumber? = some (.exact j)) (hleft : (left.evaluate env).run s = (.ok a, s₁))
    (hright : (right.evaluate env).run s₁ = (.ok b, s₂)) :
    ∃ less equal greater,
      Answers env (binary .lt left right) s less s₂ ∧
      Answers env (binary .eq left right) s equal s₂ ∧
      Answers env (binary .gt left right) s greater s₂ ∧
      Answers env (binary .le left right) s (!greater) s₂ ∧
      Answers env (binary .ge left right) s (!less) s₂ ∧
      Answers env (binary .ne left right) s (!equal) s₂ ∧
      Answers env (binary .mem left (list [right])) s equal s₂ ∧
      Answers env (binary .notMem left (list [right])) s (!equal) s₂ ∧
      (less ↔ i.toInt < j.toInt) ∧ (greater ↔ j.toInt < i.toInt) ∧
      (equal ↔ nearest i.toInt = nearest j.toInt) ∧ (less || equal || greater) ∧
      (less.toNat + equal.toNat + greater.toNat = 1 ↔ (equal → i = j)) ∧
      ((!greater) = (less || equal) ↔ (equal → i.toInt ≤ j.toInt)) ∧
      (i.toInt.natAbs ≤ 2 ^ 53 → j.toInt.natAbs ≤ 2 ^ 53 → equal → i = j) := by
  obtain ⟨heq, hne, hmem, hnotMem⟩ := BinaryOp.apply_eq ha hb
  obtain ⟨hlt, hle, hgt, hge⟩ := BinaryOp.apply_order ha hb
  have hlist := run_list hright
  have hle' : (!decide (j.toInt < i.toInt)) = decide (i.toInt ≤ j.toInt) := by
    rw [← decide_not, decide_eq_decide, Int.not_lt]
  have hge' : (!decide (i.toInt < j.toInt)) = decide (j.toInt ≤ i.toInt) := by
    rw [← decide_not, decide_eq_decide, Int.not_lt]
  have hsame : i = j ↔ i.toInt = j.toInt := Int64.toInt_inj.symm
  refine ⟨i.toInt < j.toInt, nearest i.toInt = nearest j.toInt, j.toInt < i.toInt,
    (run_binary rfl hleft hright).trans (congrArg (·, s₂) hlt),
    (run_binary rfl hleft hright).trans (congrArg (·, s₂) heq),
    (run_binary rfl hleft hright).trans (congrArg (·, s₂) hgt),
    (run_binary rfl hleft hright).trans (congrArg (·, s₂) (hle'.symm ▸ hle)),
    (run_binary rfl hleft hright).trans (congrArg (·, s₂) (hge'.symm ▸ hge)),
    (run_binary rfl hleft hright).trans (congrArg (·, s₂) hne),
    (run_binary rfl hleft hlist).trans (congrArg (·, s₂) hmem),
    (run_binary rfl hleft hlist).trans (congrArg (·, s₂) hnotMem),
    decide_eq_true_iff, decide_eq_true_iff, decide_eq_true_iff, ?_⟩
  have hsmall (hi : i.toInt.natAbs ≤ 2 ^ 53) (hj : j.toInt.natAbs ≤ 2 ^ 53)
      (h : nearest i.toInt = nearest j.toInt) : i.toInt = j.toInt := by
    rwa [Binary64.nearest_of_natAbs_le hi, Binary64.nearest_of_natAbs_le hj] at h
  simp only [decide_eq_true_iff, hsame]
  refine and_assoc.1 (and_assoc.1 ⟨?_, hsmall⟩)
  obtain hlower | hequal | hupper := Int.lt_trichotomy i.toInt j.toInt
  · by_cases hrounded : nearest i.toInt = nearest j.toInt <;>
      simp [hlower, hlower.ne, hlower.le, hlower.not_gt, hrounded]
  · simp [hequal]
  · by_cases hrounded : nearest i.toInt = nearest j.toInt <;>
      simp [hupper, hupper.ne', hupper.not_ge, hupper.not_gt, hrounded]

/-- The integer after two to the fifty-third is greater than it and equal to it. -/
theorem greater_and_equal :
    let left := int 9007199254740993
    let right := int 9007199254740992
    Answers Environment.empty (binary .gt left right) () true () ∧
      Answers Environment.empty (binary .eq left right) () true () ∧
      Answers Environment.empty (binary .lt left right) () false () ∧
      Answers Environment.empty (binary .le left right) () false () ∧
      Answers Environment.empty (binary .mem left (list [right])) () true () := by
  intro left right
  obtain ⟨less, equal, greater, hlt, heq, hgt, hle, -, -, hmem, -, hless, hgreater, hequal, -⟩ :=
    @comparisons_agree _ Environment.empty left right () () () (.int 9007199254740993)
      (.int 9007199254740992) 9007199254740993 9007199254740992 rfl rfl rfl rfl
  obtain rfl : less = false := by
    rw [← Bool.not_eq_true, hless]
    decide
  obtain rfl : greater = true := hgreater.2 (by decide)
  obtain rfl : equal = true := hequal.2 (by decide +kernel)
  exact ⟨hgt, heq, hlt, hle, hmem⟩

end Expr

end Targeting.Condition
