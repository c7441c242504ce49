/-
# What the questions about a property answer

There are two questions about the values of a property: which one was recorded last, and whether a
value was ever recorded. They are answered here from the samples that a run records, as these were
given to the store, without codes and columns: the store may flush samples that waited, drop those
that come too soon, see its clock moved, and be left and opened again.
-/

import Targeting.Proofs.History.Columns
import Targeting.Proofs.History.Run

namespace Targeting

open Ledger (IsChronology)

namespace Ledger

variable {l : Ledger} {recorded : List Sample} {name : String} {ordered : List (Sample × Nat)}

theorem samplesNamed_of_samples (h : l.samples = recorded.map Sample.row) (name : String) :
    l.samplesNamed name = (recorded.filter fun x => x.name == name).map Sample.row := by
  rw [samplesNamed, h, List.filter_map]
  rfl

/-- A row of a property with the code of a value holds it if an equal one was recorded there. -/
theorem everHad_eq_any (h : l.samples = recorded.map Sample.row)
    (hkept : ∀ x ∈ recorded.filter fun x => x.name == name, x.value.IsKept)
    {v : PropertyValue} (hv : v.IsKept) :
    l.everHad name v = (recorded.filter fun x => x.name == name).any fun x => x.value.sameAs v := by
  rw [everHad, samplesNamed_of_samples h, List.any_map, Bool.eq_iff_iff, List.any_eq_true,
    List.any_eq_true]
  refine exists_congr fun x => and_congr_right fun hx => ?_
  exact Bool.eq_iff_iff.1 (Cells.holds_ofValue (hkept x hx) hv)

theorem latestValue?_eq_getLast? (h : l.samples = recorded.map Sample.row)
    (hkept : ∀ x ∈ recorded.filter fun x => x.name == name, x.value.IsKept)
    (hordered : IsChronology Sample.stamp (recorded.filter fun x => x.name == name) ordered) :
    l.latestValue? name = ordered.getLast?.map fun entry => entry.1.value.withoutZeroSign := by
  rw [latestValue?, samplesNamed_of_samples h, latestBy?_map]
  have hlatest := hordered.latestBy?_eq_getLast?
  change ((latestBy? Sample.stamp _).map Sample.row).bind _ = _
  cases hlast : latestBy? Sample.stamp (recorded.filter fun x => x.name == name) with
  | none =>
      rw [hlast] at hlatest
      rw [Option.map_eq_none_iff.1 hlatest.symm]
      rfl
  | some x =>
      rw [hlast] at hlatest
      obtain ⟨entry, hentry, rfl⟩ := Option.map_eq_some_iff.1 hlatest.symm
      rw [hentry]
      exact Cells.value?_ofValue (hkept entry.1 (mem_of_latestBy? hlast))

end Ledger

namespace Store

/-- The samples of a property that are recorded in a run. -/
def samplesUnder (s : Store) (ops : List Operation) (name : String) : List Sample :=
  (s.samplesOf ops).filter fun x => x.name == name

/-- **The questions about a property are answered from what was recorded** in any run of a store
that begins in an empty directory. A value was ever had if some sample has one of its kind that is
equal to it. The latest value is that of the last sample by stamp and by recording, with its kind;
only the sign of a zero is not told, which equality does not see. -/
theorem recorded_values_are_told {interval : Int} {ops : List Operation} {name : String}
    (hstarted : ((ofLedger interval .empty).after ops).isStarted)
    (hkept : ∀ x ∈ (ofLedger interval .empty).samplesUnder ops name, x.value.IsKept) :
    (∀ v : PropertyValue, v.IsKept → ((ofLedger interval .empty).after ops).everHad name v =
      .ok (((ofLedger interval .empty).samplesUnder ops name).any fun x => x.value.sameAs v)) ∧
    (∃ ordered,
      IsChronology Sample.stamp ((ofLedger interval .empty).samplesUnder ops name) ordered ∧
      ((ofLedger interval .empty).after ops).latestValue name =
        .ok (ordered.getLast?.map fun entry => entry.1.value.withoutZeroSign)) ∧
    ∀ x ∈ (ofLedger interval .empty).samplesUnder ops name,
      x.value.withoutZeroSign.sameAs x.value ∧
      ((∀ z, x.value = .float z → ¬ z == 0) → x.value.withoutZeroSign = x.value) := by
  have hopened := opened_of_isStarted hstarted
  have hsamples : ((ofLedger interval .empty).after ops).ledger.samples =
      ((ofLedger interval .empty).samplesOf ops).map Sample.row := by
    rw [ledger_after]
    rfl
  refine ⟨fun v hv => ?_, ?_, fun x hx => ?_⟩
  · rw [everHad, hopened]
    exact congrArg Except.ok (Ledger.everHad_eq_any hsamples hkept hv)
  · obtain ⟨ordered, hordered, -⟩ := Ledger.exists_isChronology Sample.stamp
      ((ofLedger interval .empty).samplesUnder ops name)
    refine ⟨ordered, hordered, ?_⟩
    rw [latestValue, hopened]
    exact congrArg Except.ok (Ledger.latestValue?_eq_getLast? hsamples hkept hordered)
  · exact ⟨PropertyValue.sameAs_withoutZeroSign (hkept x hx),
      PropertyValue.withoutZeroSign_eq_self⟩

/-- A score is set to look-alikes: before the start as a number and then as the time with that
number, afterwards as truth, and as a negative zero by a clock that was set back. One sample comes
too soon. -/
def scores : List Operation :=
  [.recordSample "score" (.int 1) .appStart ⟨3⟩,
    .recordSample "score" (.timestamp ⟨1⟩) .onUse ⟨4⟩, .start true ⟨10⟩,
    .recordSample "score" (.text "1") .onUse ⟨14⟩, .recordSample "level" (.int 1) .onUse ⟨14⟩,
    .recordSample "score" (.bool true) .onUse ⟨15⟩,
    .recordSample "score" (.float (-0)) .onCustomSet ⟨8⟩, .stableRandom 7 ⟨16⟩]

/-- The score is true, it was the time and zero, and it was never the number or the text. -/
theorem scores_are_told : let s := (ofLedger 5 .empty).after scores
    s.latestValue "score" = .ok (some (.bool true)) ∧
    s.everHad "score" (.timestamp ⟨1⟩) = .ok true ∧ s.everHad "score" (.float 0) = .ok true ∧
    s.everHad "score" (.int 1) = .ok false ∧ s.everHad "score" (.text "1") = .ok false := by
  have hstarted : ((ofLedger 5 .empty).after scores).isStarted := by decide
  have hsamples : (ofLedger 5 .empty).samplesUnder scores "score" =
      [⟨"score", .timestamp ⟨1⟩, .onUse, ⟨10⟩⟩, ⟨"score", .bool true, .onUse, ⟨15⟩⟩,
        ⟨"score", .float (-0), .onCustomSet, ⟨8⟩⟩] := by decide
  have hkept : ∀ x ∈ (ofLedger 5 .empty).samplesUnder scores "score", x.value.IsKept := by
    rw [hsamples]
    decide
  obtain ⟨hever, ⟨ordered, hordered, hlatest⟩, -⟩ := recorded_values_are_told hstarted hkept
  have hlast : ordered.getLast?.map Prod.fst = some ⟨"score", .bool true, .onUse, ⟨15⟩⟩ := by
    rw [← hordered.latestBy?_eq_getLast?, hsamples]
    decide
  rw [hsamples] at hever
  refine ⟨?_, hever (.timestamp ⟨1⟩) (by decide), hever (.float 0) (by decide),
    hever (.int 1) trivial, hever (.text "1") trivial⟩
  obtain ⟨entry, hentry, hvalue⟩ := Option.map_eq_some_iff.1 hlast
  rw [hlatest, hentry, Option.map_some, hvalue]
  rfl

end Store

end Targeting
