/-
# Signed 64-bit words

Integers of conditions and stored rows are signed 64-bit words. Their arithmetic is exact or
absent: each operation is carried out on unbounded integers and answers only if the result is
a word again, so no operation wraps around.
-/

import Targeting.Number.Digits

namespace Targeting.Word

/-- The integer as a word, if it lies in the 64-bit range. -/
def ofInt? (z : Int) : Option Int64 :=
  if Int64.minValue.toInt ≤ z ∧ z ≤ Int64.maxValue.toInt then some (Int64.ofInt z) else none

/-- The word nearest to an integer: one beyond the range becomes the end of the range. -/
def clamp (z : Int) : Int64 :=
  if z < Int64.minValue.toInt then Int64.minValue
  else if Int64.maxValue.toInt < z then Int64.maxValue
  else Int64.ofInt z

/-- Exact sum, absent on overflow. -/
def add? (a b : Int64) : Option Int64 := ofInt? (a.toInt + b.toInt)

/-- Exact difference, absent on overflow. -/
def sub? (a b : Int64) : Option Int64 := ofInt? (a.toInt - b.toInt)

/-- Exact product, absent on overflow. -/
def mul? (a b : Int64) : Option Int64 := ofInt? (a.toInt * b.toInt)

/-- Exact negation, absent for the least word. -/
def neg? (a : Int64) : Option Int64 := ofInt? (-a.toInt)

/-- Remainder with the sign of the dividend; absent for a zero divisor. -/
def rem? (a b : Int64) : Option Int64 :=
  if b = 0 then none else some (Int64.ofInt (a.toInt.tmod b.toInt))

/-- A signed numeral whose value is a word. -/
def parse? (text : List Char) : Option Int64 :=
  (Digits.signed? text).bind ofInt?

/-- The decimal text of a word. -/
def render (a : Int64) : String :=
  String.ofList (Digits.ofInt a.toInt)

theorem ofInt?_toInt (a : Int64) : ofInt? a.toInt = some a := by
  rw [ofInt?, if_pos ⟨Int64.minValue_le_toInt a, Int64.toInt_le a⟩, Int64.ofInt_toInt]

theorem toInt_of_ofInt? {z : Int} {a : Int64} (h : ofInt? z = some a) : a.toInt = z := by
  unfold ofInt? at h
  split at h
  · rename_i range
    cases h
    exact Int64.toInt_ofInt_of_le range.1 (Int.lt_of_le_of_lt range.2 (by decide))
  · cases h

theorem ofInt?_eq_some_iff {z : Int} {a : Int64} : ofInt? z = some a ↔ z = a.toInt :=
  ⟨fun h => (toInt_of_ofInt? h).symm, fun h => h ▸ ofInt?_toInt a⟩

end Targeting.Word
