/-
# The stable random number

The stable random number of a directory is the integer in the first row of its name. The first
request writes that row if there is none yet; but rows of that name may come from anywhere, for an
app may record a property of the same name. Whoever wrote it, the row that was found first stays
the first one while the clock is not set back: a row that is recorded later has no smaller stamp,
and of rows with the same stamp the earlier one comes first. So a number that has been answered is
answered again, in whatever store over that directory.
-/

import Targeting.Proofs.History.Sampling

namespace Targeting.Store

open Calendar (Instant)

variable {s : Store} {r : Int64} {candidate : Int64} {now : Instant}

/-- The first row of the name of the stable random number holds an integer. -/
def HoldsRandom (s : Store) (r : Int64) : Prop :=
  ∃ row, Ledger.earliestBy? SampleRow.stamp (s.ledger.samplesNamed stableRandomName) = some row ∧
    row.cells.int = some r

/-- The number is answered, and nothing changes, whatever the candidate is. -/
theorem stableRandom_of_holdsRandom (h : s.HoldsRandom r) (candidate : Int64) (now : Instant) :
    s.stableRandom candidate now = (if s.isStarted then .ok r else .error .notStarted, s) := by
  obtain ⟨row, hrow, hint⟩ := h
  by_cases hstarted : s.isStarted
  · rw [stableRandom, opened_of_isStarted hstarted, if_pos hstarted]
    simp only [hrow, hint]
  · rw [stableRandom, opened, if_neg hstarted, if_neg hstarted]

/-- After an answer the first row holds what was answered: it was there, or it has just been
written. -/
theorem holdsRandom_of_stableRandom (h : (s.stableRandom candidate now).1 = .ok r) :
    (s.stableRandom candidate now).2.HoldsRandom r := by
  by_cases hstarted : s.isStarted
  case neg =>
    rw [stableRandom, opened, if_neg hstarted] at h
    cases h
  case pos =>
    rw [stableRandom, opened_of_isStarted hstarted] at h ⊢
    cases hrow : Ledger.earliestBy? SampleRow.stamp
        (s.ledger.samplesNamed stableRandomName) with
    | none =>
        simp only [hrow, Except.ok.injEq] at h ⊢
        subst h
        let written : Sample := ⟨stableRandomName, .int candidate, .never, now⟩
        have hrows : (s.ledger.addSample stableRandomName (.int candidate) .never now).samplesNamed
            stableRandomName = s.ledger.samplesNamed stableRandomName ++ [written.row] :=
          List.filter_append ..
        refine ⟨written.row, ?_, rfl⟩
        rw [hrows, Ledger.earliestBy?_eq_none_iff.1 hrow]
        rfl
    | some row =>
        cases hint : row.cells.int with
        | none => simp [hrow, hint] at h
        | some i =>
            simp only [hrow, hint, Except.ok.injEq] at h ⊢
            exact ⟨row, hrow, h ▸ hint⟩

/-- The first row stays the first one in a run in which the clock is not set back. -/
theorem HoldsRandom.after {ops : List Operation} (h : s.HoldsRandom r)
    (hclock : s.ClockAscends ops) : (s.after ops).HoldsRandom r := by
  obtain ⟨row, hrow, hint⟩ := h
  refine ⟨row, ?_, hint⟩
  have hascends := pairwise_stamp_after hclock
  rw [ledger_after, List.map_append, List.pairwise_append] at hascends
  obtain ⟨-, -, hlater⟩ := hascends
  have hmem : row ∈ s.ledger.samples := List.mem_of_mem_filter (Ledger.mem_of_earliestBy? hrow)
  rw [ledger_after, Ledger.samplesNamed, List.filter_append]
  refine Ledger.earliestBy?_append hrow fun other hother => ?_
  exact hlater _ (List.mem_map_of_mem hmem) _
    (List.mem_map_of_mem (List.mem_of_mem_filter hother))

theorem after_append (s : Store) (ops later : List Operation) :
    s.after (ops ++ later) = (s.after ops).after later :=
  List.foldl_append

theorem clockAscends_after {ops later : List Operation} (h : s.ClockAscends (ops ++ later)) :
    (s.after ops).ClockAscends later := by
  induction ops generalizing s with
  | nil => exact h
  | cons op rest ih => exact ih (clockAscends_run h)

/-- **The stable random number is stable** in every run with a clock that is never set back,
whatever the directory held before. Once a request has been answered, every later one is answered
with the same number by every store over the directory that has been opened, and changes nothing;
whatever has been recorded in between, under whatever names, and however often the store has been
left and opened again. -/
theorem stableRandom_stays {ops later : List Operation}
    (hclock : s.ClockAscends (ops ++ .stableRandom candidate now :: later))
    (hanswer : ((s.after ops).stableRandom candidate now).1 = .ok r) :
    let s' := s.after (ops ++ .stableRandom candidate now :: later)
    ∀ candidate' now', s'.stableRandom candidate' now' =
      (if s'.isStarted then .ok r else .error .notStarted, s') := by
  intro s' candidate' now'
  have hholds : ((s.after ops).stableRandom candidate now).2.HoldsRandom r :=
    holdsRandom_of_stableRandom hanswer
  have hlater := clockAscends_run (clockAscends_after hclock)
  have hs' : s' = ((s.after ops).stableRandom candidate now).2.after later := after_append ..
  rw [hs']
  exact stableRandom_of_holdsRandom (hholds.after hlater) candidate' now'

/-- An app samples a property under the name of the stable random number before anybody has asked
for it. -/
def claimed : List Operation :=
  [.recordSample stableRandomName (.int 41) .onCustomSet ⟨5⟩, .start true ⟨6⟩]

/-- Later it samples texts under that name, at the same moment and after it has opened another
store. -/
def reclaimed : List Operation :=
  [.recordSample stableRandomName (.text "mine") .onCustomSet ⟨7⟩, .reopen 9, .start true ⟨7⟩,
    .recordSample stableRandomName (.int 42) .onUse ⟨8⟩]

/-- The number is the app's first sample, and it is answered again in the other store. -/
theorem claimed_number_stays :
    let s := ofLedger defaultInterval .empty
    let s' := s.after (claimed ++ .stableRandom 7 ⟨7⟩ :: reclaimed)
    ((s.after claimed).stableRandom 7 ⟨7⟩).1 = .ok 41 ∧
      (s'.ledger.samplesNamed stableRandomName).length = 2 ∧
      s'.stableRandom 8 ⟨9⟩ = (.ok 41, s') := by
  intro s s'
  have hanswer : ((s.after claimed).stableRandom 7 ⟨7⟩).1 = .ok 41 := by decide
  have hstarted : s'.isStarted := by decide
  refine ⟨hanswer, by decide, ?_⟩
  have hstays := @stableRandom_stays s 41 7 ⟨7⟩ claimed reclaimed (by decide) hanswer 8 ⟨9⟩
  rw [if_pos hstarted] at hstays
  exact hstays

end Targeting.Store
