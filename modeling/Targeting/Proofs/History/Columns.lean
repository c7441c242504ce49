/-
# Values out of columns

A value that is written into its column is read again from there, and a column with its code holds
no other value. Numbers that look like times, truth or texts are not taken for them, although times
share the column of integers. The one thing that columns change is the sign of zero, and equality
does not see it.
-/

import Targeting.History.Columns
import Targeting.Proofs.Calendar.Clock
import Targeting.Proofs.Number.Binary64

namespace Targeting

open Calendar (Date Instant)

/-- The times of the calendar are words. -/
theorem Calendar.Instant.micros_bounds_of_inRange {t : Instant} (h : t.inRange) :
    -2 ^ 63 ≤ t.micros ∧ t.micros < 2 ^ 63 := by
  rw [inRange, Date.inRange_iff] at h
  have hfirst : (Date.newYear Date.minYear).dayNumber = -96465292 := by decide
  have hlast : (Date.newYear (Date.maxYear + 1)).dayNumber = 95026237 := by decide
  simp only [hfirst, hlast, secondsPerDay] at h
  omega

namespace PropertyValue

/-- A value that a column can keep: a float has to be a number, a time one of the calendar. -/
def IsKept : PropertyValue → Prop
  | float x => x.isNaN = false
  | timestamp t => t.inRange
  | _ => True

instance : DecidablePred IsKept
  | float x => inferInstanceAs (Decidable (x.isNaN = false))
  | timestamp t => inferInstanceAs (Decidable (t.inRange = true))
  | bool _ | int _ | text _ => .isTrue trivial

/-- Whether two values are of one kind and equal. Zeros are equal whatever their signs. -/
def sameAs : PropertyValue → PropertyValue → Bool
  | bool a, bool b => a == b
  | int a, int b => a == b
  | float a, float b => a == b
  | text a, text b => a == b
  | timestamp a, timestamp b => a == b
  | _, _ => false

/-- A value as its column keeps it: zero has no sign. -/
def withoutZeroSign : PropertyValue → PropertyValue
  | float x => float (if x == 0 then 0 else x)
  | v => v

theorem withoutZeroSign_eq_self {v : PropertyValue} (h : ∀ x, v = float x → ¬ x == 0) :
    v.withoutZeroSign = v := by
  cases v with
  | float x => exact congrArg float (if_neg (h x rfl))
  | bool _ | int _ | text _ | timestamp _ => rfl

/-- Values are told as values that are equal to them. -/
theorem sameAs_withoutZeroSign {v : PropertyValue} (h : v.IsKept) : v.withoutZeroSign.sameAs v := by
  cases v with
  | float x =>
      have hself : x == x := Binary64.beq_self_of_isNaN_eq_false h
      change (if x == 0 then 0 else x) == x
      split
      case isTrue hzero => rw [← Binary64.beq_eq_zero_beq hzero, hself]
      case isFalse => exact hself
  | bool _ | int _ | text _ | timestamp _ => exact beq_self_eq_true _

end PropertyValue

namespace Cells

theorem storedReal?_eq {x : Float} (h : x.isNaN = false) :
    storedReal? x = some (if x == 0 then 0 else x) := by
  rw [storedReal?, h, if_neg Bool.false_ne_true]
  split <;> rfl

theorem toInt_ofInstant {t : Instant} (h : t.inRange) : (ofInstant t).toInt = t.micros := by
  have hbounds := Instant.micros_bounds_of_inRange h
  exact Int64.toInt_ofInt_of_le hbounds.1 hbounds.2

theorem ofInstant_beq {t u : Instant} (ht : t.inRange) (hu : u.inRange) :
    (ofInstant t == ofInstant u) = (t == u) := by
  rw [Bool.eq_iff_iff, beq_iff_eq, beq_iff_eq]
  refine ⟨fun h => ?_, congrArg ofInstant⟩
  have hmicros := congrArg Int64.toInt h
  rw [toInt_ofInstant ht, toInt_ofInstant hu] at hmicros
  exact congrArg Instant.mk hmicros

theorem ofBool_bne_zero (b : Bool) : (ofBool b != 0) = b := by
  cases b <;> decide

theorem ofBool_beq (a b : Bool) : (ofBool a == ofBool b) = (a == b) := by
  cases a <;> cases b <;> decide

/-- **A value is read as it was written.** -/
theorem value?_ofValue {v : PropertyValue} (h : v.IsKept) :
    (ofValue v).value? v.kind.code = some v.withoutZeroSign := by
  cases v with
  | text s => rfl
  | int i => rfl
  | float x => exact congrArg (Option.map PropertyValue.float) (storedReal?_eq h)
  | bool b => exact congrArg (fun b => some (PropertyValue.bool b)) (ofBool_bne_zero b)
  | timestamp t =>
      have hread : Instant.ofMicros? (ofInstant t).toInt = some t := by
        rw [toInt_ofInstant h, Instant.ofMicros?]
        exact if_pos h
      exact congrArg (Option.map PropertyValue.timestamp) hread

/-- **A row holds no other value than the one that was written.** Values of two kinds have different
codes, and those of one kind are compared in their column. -/
theorem holds_ofValue {v w : PropertyValue} (hv : v.IsKept) (hw : w.IsKept) :
    (v.kind.code == w.kind.code && (ofValue v).holds w) = v.sameAs w := by
  cases v with
  | text s => cases w <;> rfl
  | int i => cases w <;> rfl
  | float x =>
      cases w with
      | float y =>
          change (storedReal? x).any (· == y) = (x == y)
          rw [storedReal?_eq hv, Option.any_some]
          split
          case isTrue hzero => exact (Binary64.beq_eq_zero_beq hzero y).symm
          case isFalse => rfl
      | bool _ | int _ | text _ | timestamp _ => rfl
  | bool a =>
      cases w with
      | bool b => exact ofBool_beq a b
      | int _ | float _ | text _ | timestamp _ => rfl
  | timestamp t =>
      cases w with
      | timestamp u => exact ofInstant_beq hv hw
      | bool _ | int _ | float _ | text _ => rfl

end Cells

end Targeting
