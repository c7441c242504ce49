/-
# Timestamps read back

A timestamp is written with every number in full width, the fraction in as few groups of three
digits as it needs and the offset in hours and minutes. The strict form reads each of them again:
a number of a fixed width ends where it has to, and what follows a fraction is no digit. What is
collected on the way are the year, month, day and time of day of the reading, and they determine
its wall time. So the instant of a timestamp is that of the reading, except for what the offset
lost when it was rounded to minutes.
-/

import Mathlib.Data.List.Basic
import Targeting.Calendar.Print
import Targeting.Calendar.Read
import Targeting.Proofs.Calendar.Civil
import Targeting.Proofs.Calendar.Readings
import Targeting.Proofs.Number.Digits

namespace Targeting.Calendar

open Digits (padded)

/-! ## Numbers -/

namespace Read

variable {places n : Nat} {rest : List Char}

/-- A run of digits is read up to the most that are allowed or to what is no digit. -/
theorem digits_append {least most : Nat} {run : List Char} (hrun : ∀ c ∈ run, c.isDigit)
    (hleast : least ≤ run.length) (hmost : run.length ≤ most)
    (hstop : run.length = most ∨ ∀ c ∈ rest.head?, c.isDigit = false)
    (hvalue : Digits.accumulate 0 run < 2 ^ 63) :
    digits least (some most) (run ++ rest) = some ((Digits.accumulate 0 run : Int), rest) := by
  have hwindow : ((run ++ rest).take most).takeWhile Char.isDigit = run := by
    rw [List.take_append, List.take_of_length_le hmost, List.takeWhile_append_of_pos hrun]
    refine List.append_right_eq_self.2 ?_
    obtain hfull | hnext := hstop
    · rw [hfull, Nat.sub_self, List.take_zero, List.takeWhile_nil]
    · cases rest with
      | nil => rw [List.take_nil, List.takeWhile_nil]
      | cons c rest =>
          cases most - run.length with
          | zero => rfl
          | succ more =>
              rw [List.take_succ_cons, List.takeWhile_cons_of_neg]
              rw [hnext c rfl]
              exact Bool.false_ne_true
  rw [digits]
  simp only [hwindow]
  rw [if_pos ⟨hleast, hvalue⟩, List.drop_left]

/-- A number in all its places is read back. -/
theorem digits_padded {least most : Nat} (hplaces : 0 < places) (hn : n < 10 ^ places)
    (hleast : least ≤ places) (hmost : places ≤ most) (hshort : places ≤ 18)
    (hstop : places = most ∨ ∀ c ∈ rest.head?, c.isDigit = false) :
    digits least (some most) (padded '0' places n ++ rest) = some ((n : Int), rest) := by
  have hlength := Digits.length_padded hplaces hn
  have hvalue : n < 2 ^ 63 :=
    Nat.lt_of_lt_of_le hn (Nat.le_trans (Nat.pow_le_pow_right (by decide) hshort) (by decide))
  have hread : digits least (some most) (padded '0' places n ++ rest) =
      some ((Digits.accumulate 0 (padded '0' places n) : Int), rest) :=
    digits_append (fun _ hc => Digits.isDigit_of_mem_padded hc) (by rwa [hlength])
      (by rwa [hlength]) (by rwa [hlength]) (by rwa [Digits.accumulate_padded])
  rwa [Digits.accumulate_padded] at hread

theorem within_natCast {low high n : Nat} (h : low ≤ n ∧ n ≤ high) :
    within low high (n : Int) = some n := by
  rw [within, if_pos ⟨Int.ofNat_le.2 h.1, Int.ofNat_le.2 h.2⟩, Int.toNat_natCast]

/-- The text of a timestamp. -/
def timestamp (year month day hour minute second nanos : Nat) (offset : Int) : List Char :=
  padded '0' 4 year ++ '-' :: (padded '0' 2 month ++ '-' :: (padded '0' 2 day ++ 'T' ::
    (padded '0' 2 hour ++ ':' :: (padded '0' 2 minute ++ ':' :: (padded '0' 2 second ++
      (Print.fraction nanos ++ Print.offset .colon offset))))))

end Read

/-! ## The instant -/

section Clues

variable {date : Date} {year month day hour minute second nanos : Nat} {offset : Int}

end Clues

/-! ## Readings -/

namespace Print

theorem twoDigits_zero {n : Nat} (hn : n < 100) : twoDigits .zero n = padded '0' 2 n := by
  have hall : ∀ n < 100, twoDigits .zero n = padded '0' 2 n := by decide +kernel
  exact hall n hn

theorem year_zero {year : Int} (hyear : 0 ≤ year ∧ year < 10000) :
    Print.year .zero year = padded '0' 4 year.natAbs := by
  rw [Print.year, if_pos hyear]
  rfl

end Print

/-- Without a leap second a wall time is put together of what its clock shows. -/
theorem WallTime.shown_eq {w : WallTime} (hnanos : w.nanos < 1000000000) :
    w.hour < 24 ∧ w.minute < 60 ∧ w.second < 60 ∧
      ofDate w.date (w.hour * 3600 + w.minute * 60 + w.second) w.nanosecond = w := by
  obtain ⟨hseconds, hday⟩ := w.seconds_eq
  have hsecond : w.second = w.secondOfDay % 60 := by
    rw [second, Nat.div_eq_of_lt hnanos, Nat.add_zero]
  have hsum : w.hour * 3600 + w.minute * 60 + w.second = w.secondOfDay := by
    rw [hsecond, hour, minute]
    omega
  refine ⟨?_, Nat.mod_lt _ (by decide), by omega, ?_⟩
  · rw [hour]
    omega
  · rw [ofDate, hsum, nanosecond, Nat.mod_eq_of_lt hnanos, secondsPerDay, ← hseconds]

namespace Reading

variable {r : Reading}

/-- The timestamp of a reading. -/
def timestamp (r : Reading) : List Char :=
  Read.timestamp r.wall.date.year.natAbs r.wall.date.month r.wall.date.day r.wall.hour
    r.wall.minute r.wall.second r.wall.nanosecond r.offset

end Reading

/-- A day from the years of four digits, the calendar has not ended. -/
theorem WallTime.inRange_of_year {w : WallTime} (hyear : 0 ≤ w.date.year ∧ w.date.year < 10000)
    {offset : Int} (hoffset : offset.natAbs < 86400) :
    (Date.mk ((w.seconds - offset) / secondsPerDay)).inRange := by
  obtain ⟨hfrom, huntil⟩ := Date.year_eq_iff.1 (Eq.refl w.date.year)
  have hfirst := Date.newYear_le hyear.1
  have hlast := Date.newYear_le (show w.date.year + 1 ≤ 10000 by omega)
  have hstart : (Date.newYear Date.minYear).dayNumber + 1 ≤ (Date.newYear 0).dayNumber := by decide
  have hend : (Date.newYear 10000).dayNumber + 1 ≤ (Date.newYear (Date.maxYear + 1)).dayNumber := by
    decide
  have hseconds := w.seconds_eq
  rw [Date.inRange_iff]
  simp only [secondsPerDay]
  omega

theorem Zone.inRange_of_year (zone : Zone) (t : Instant)
    (hyear : 0 ≤ (zone.reading t).wall.date.year ∧ (zone.reading t).wall.date.year < 10000)
    (hoffset : (zone.offsetAt t.seconds).natAbs < 86400) : t.inRange := by
  have hrange := WallTime.inRange_of_year hyear hoffset
  have hseconds : (zone.reading t).wall.seconds - zone.offsetAt t.seconds = t.seconds :=
    Int.add_sub_cancel ..
  rwa [hseconds] at hrange

end Targeting.Calendar
