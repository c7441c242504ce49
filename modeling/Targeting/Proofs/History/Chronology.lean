/-
# The order of rows

Rows are put in the order of their stamps, and rows with the same stamp in the order of recording.
That settles their order completely. The row that is found as the first one is at the beginning of
it and the row that is found as the last one is at the end, however the clock was moved between
them.
-/

import Mathlib.Data.List.Nodup
import Mathlib.Data.List.Range
import Targeting.History.Ledger
import Targeting.Proofs.Calendar.Clock

namespace Targeting.Ledger

open Calendar (Instant)

variable {α β : Type} {stamp : α → Instant} {rows before after : List α} {row : α}
  {ordered : List (α × Nat)}

/-! ## The first and the last row -/

theorem earliestBy?_eq_none_iff : earliestBy? stamp rows = none ↔ rows = [] := by
  cases rows with
  | nil => simp [earliestBy?]
  | cons first rest =>
      rw [earliestBy?]
      cases earliestBy? stamp rest with
      | none => simp
      | some best =>
          simp only [reduceCtorEq, iff_false]
          split <;> simp

theorem mem_of_earliestBy? (h : earliestBy? stamp rows = some row) : row ∈ rows := by
  induction rows generalizing row with
  | nil => cases h
  | cons first rest ih =>
      rw [earliestBy?] at h
      cases hrest : earliestBy? stamp rest with
      | none =>
          rw [hrest] at h
          cases h
          exact List.mem_cons_self
      | some best =>
          simp only [hrest] at h
          split at h
          case isTrue =>
            cases h
            exact List.mem_cons_of_mem _ (ih hrest)
          case isFalse =>
            cases h
            exact List.mem_cons_self

theorem mem_of_latestBy? (h : latestBy? stamp rows = some row) : row ∈ rows := by
  induction rows generalizing row with
  | nil => cases h
  | cons first rest ih =>
      rw [latestBy?] at h
      cases hrest : latestBy? stamp rest with
      | none =>
          rw [hrest] at h
          cases h
          exact List.mem_cons_self
      | some best =>
          simp only [hrest] at h
          split at h
          case isTrue =>
            cases h
            exact List.mem_cons_self
          case isFalse =>
            cases h
            exact List.mem_cons_of_mem _ (ih hrest)

/-- A row with the least stamp is found if those recorded before it have greater ones. -/
theorem earliestBy?_append_cons (hbefore : ∀ r ∈ before, stamp row < stamp r)
    (hafter : ∀ r ∈ after, stamp row ≤ stamp r) :
    earliestBy? stamp (before ++ row :: after) = some row := by
  induction before with
  | nil =>
      rw [List.nil_append, earliestBy?]
      cases hrest : earliestBy? stamp after with
      | none => rfl
      | some best => exact if_neg (Instant.not_lt.2 (hafter best (mem_of_earliestBy? hrest)))
  | cons first before ih =>
      obtain ⟨hfirst, hbefore⟩ := List.forall_mem_cons.1 hbefore
      rw [List.cons_append, earliestBy?, ih hbefore]
      exact if_pos hfirst

/-- A row with the greatest stamp is found if those recorded after it have less. -/
theorem latestBy?_append_cons (hbefore : ∀ r ∈ before, stamp r ≤ stamp row)
    (hafter : ∀ r ∈ after, stamp r < stamp row) :
    latestBy? stamp (before ++ row :: after) = some row := by
  induction before with
  | nil =>
      rw [List.nil_append, latestBy?]
      cases hrest : latestBy? stamp after with
      | none => rfl
      | some best => exact if_pos (hafter best (mem_of_latestBy? hrest))
  | cons first before ih =>
      obtain ⟨hfirst, hbefore⟩ := List.forall_mem_cons.1 hbefore
      rw [List.cons_append, latestBy?, ih hbefore]
      exact if_neg (Instant.not_lt.2 hfirst)

/-- The row that is found as the first one stands between rows with greater stamps, recorded before
it, and rows whose stamps are not less, recorded after it. -/
theorem earliestBy?_eq_some_iff : earliestBy? stamp rows = some row ↔
    ∃ before after, rows = before ++ row :: after ∧ (∀ r ∈ before, stamp row < stamp r) ∧
      ∀ r ∈ after, stamp row ≤ stamp r := by
  constructor
  case mpr =>
    rintro ⟨before, after, rfl, hbefore, hafter⟩
    exact earliestBy?_append_cons hbefore hafter
  case mp =>
    intro h
    induction rows generalizing row with
    | nil => cases h
    | cons first rest ih =>
        rw [earliestBy?] at h
        cases hrest : earliestBy? stamp rest with
        | none =>
            rw [hrest] at h
            cases h
            exact ⟨[], rest, rfl, nofun, by simp [earliestBy?_eq_none_iff.1 hrest]⟩
        | some best =>
            rw [hrest] at h
            obtain ⟨before, after, rfl, hbefore, hafter⟩ := ih hrest
            dsimp only at h
            split at h
            case isTrue hlt =>
              cases h
              exact ⟨first :: before, after, rfl, List.forall_mem_cons.2 ⟨hlt, hbefore⟩, hafter⟩
            case isFalse hnot =>
              cases h
              have hle : stamp first ≤ stamp best := Instant.not_lt.1 hnot
              refine ⟨[], _, rfl, nofun, List.forall_mem_append.2 ⟨fun r hr => ?_, ?_⟩⟩
              · exact Instant.le_trans hle (Int.le_of_lt (hbefore r hr))
              · exact List.forall_mem_cons.2 ⟨hle, fun r hr => Instant.le_trans hle (hafter r hr)⟩

/-- Rows that are recorded later do not take the place of the first one, unless their stamps are
less. -/
theorem earliestBy?_append {more : List α} (h : earliestBy? stamp rows = some row)
    (hmore : ∀ r ∈ more, stamp row ≤ stamp r) : earliestBy? stamp (rows ++ more) = some row := by
  obtain ⟨before, after, rfl, hbefore, hafter⟩ := earliestBy?_eq_some_iff.1 h
  rw [List.append_assoc, List.cons_append]
  exact earliestBy?_append_cons hbefore (List.forall_mem_append.2 ⟨hafter, hmore⟩)

theorem latestBy?_map (f : β → α) (rows : List β) :
    latestBy? stamp (rows.map f) = (latestBy? (fun row => stamp (f row)) rows).map f := by
  induction rows with
  | nil => rfl
  | cons first rest ih =>
      rw [List.map_cons, latestBy?, latestBy?, ih]
      cases latestBy? (fun row => stamp (f row)) rest with
      | none => rfl
      | some best =>
          simp only [Option.map_some]
          split <;> rfl

/-! ## All rows in order -/

/-- A row, with the place at which it was recorded, comes before another one: its stamp is less, or
the stamps are the same and it was recorded earlier. -/
def Precedes (stamp : α → Instant) (row other : α × Nat) : Prop :=
  stamp row.1 < stamp other.1 ∨ stamp row.1 = stamp other.1 ∧ row.2 < other.2

theorem Precedes.le {row other : α × Nat} (h : Precedes stamp row other) :
    stamp row.1 ≤ stamp other.1 := by
  obtain hlt | ⟨heq, -⟩ := h
  · exact Int.le_of_lt hlt
  · rw [heq]
    exact Instant.le_refl _

/-- What comes before a row that was recorded earlier has a smaller stamp. -/
theorem Precedes.lt {row other : α × Nat} (h : Precedes stamp row other)
    (hplace : other.2 < row.2) : stamp row.1 < stamp other.1 := by
  obtain hlt | ⟨-, hearlier⟩ := h
  · exact hlt
  · exact absurd hearlier hplace.asymm

/-- All rows with their places, each of them once, in the order of stamps and of recording. -/
structure IsChronology (stamp : α → Instant) (rows : List α) (ordered : List (α × Nat)) : Prop where
  perm : ordered.Perm rows.zipIdx
  pairwise : ordered.Pairwise (Precedes stamp)

/-- Whether a stamp is not greater than another one. -/
def stampLe (stamp : α → Instant) (row other : α) : Bool := stamp row ≤ stamp other

theorem stampLe_trans (a b c : α) (hab : stampLe stamp a b) (hbc : stampLe stamp b c) :
    stampLe stamp a c :=
  decide_eq_true (Instant.le_trans (of_decide_eq_true hab) (of_decide_eq_true hbc))

theorem stampLe_total (a b : α) : stampLe stamp a b || stampLe stamp b a := by
  rw [Bool.or_eq_true, stampLe, stampLe, decide_eq_true_iff, decide_eq_true_iff]
  exact Int.le_total _ _

theorem precedes_of_zipIdxLE {row other : α × Nat}
    (hle : List.zipIdxLE (stampLe stamp) row other) (hplace : row.2 ≠ other.2) :
    Precedes stamp row other := by
  rw [List.zipIdxLE] at hle
  split at hle
  case isFalse => cases hle
  case isTrue hfirst =>
    have hfirst : stamp row.1 ≤ stamp other.1 := of_decide_eq_true hfirst
    split at hle
    case isTrue hsecond =>
      have hsecond : stamp other.1 ≤ stamp row.1 := of_decide_eq_true hsecond
      exact .inr ⟨Instant.le_antisymm hfirst hsecond,
        Nat.lt_of_le_of_ne (of_decide_eq_true hle) hplace⟩
    case isFalse hsecond =>
      exact .inl (Instant.not_le.1 fun hle => hsecond (decide_eq_true hle))

/-- Sorting by stamps puts rows in order. -/
theorem exists_isChronology (stamp : α → Instant) (rows : List α) :
    ∃ ordered, IsChronology stamp rows ordered ∧
      ordered.map Prod.fst = rows.mergeSort (stampLe stamp) := by
  set ordered := rows.zipIdx.mergeSort (List.zipIdxLE (stampLe stamp))
  have hperm : ordered.Perm rows.zipIdx := List.mergeSort_perm _ _
  have hle : ordered.Pairwise fun row other => List.zipIdxLE (stampLe stamp) row other :=
    List.pairwise_mergeSort (List.zipIdxLE_trans stampLe_trans)
      (List.zipIdxLE_total stampLe_total) _
  have hplaces : ordered.Pairwise fun row other => row.2 ≠ other.2 := by
    have hnodup : (rows.zipIdx.map Prod.snd).Nodup := by
      rw [List.zipIdx_map_snd]
      exact List.nodup_range'
    exact List.pairwise_map.1 ((hperm.map Prod.snd).nodup_iff.2 hnodup)
  refine ⟨ordered, ⟨hperm, ?_⟩, List.mergeSort_zipIdx⟩
  exact (hle.and hplaces).imp fun ⟨hle, hplace⟩ => precedes_of_zipIdxLE hle hplace

namespace IsChronology

theorem length_eq (h : IsChronology stamp rows ordered) : ordered.length = rows.length := by
  rw [h.perm.length_eq, List.length_zipIdx]

/-- A row of the order, between the rows recorded before it and those recorded after it. -/
theorem exists_split (h : IsChronology stamp rows ordered) {place : Nat}
    (hrow : (row, place) ∈ ordered) : ∃ before after, rows = before ++ row :: after ∧
      (∀ r ∈ before, ∃ earlier < place, (r, earlier) ∈ ordered) ∧
      ∀ r ∈ after, ∃ later > place, (r, later) ∈ ordered := by
  have hmem {r : α} {i : Nat} : (r, i) ∈ ordered ↔ rows[i]? = some r := by
    rw [h.perm.mem_iff, List.mem_zipIdx_iff_getElem?]
  obtain ⟨hplace, rfl⟩ := List.getElem?_eq_some_iff.1 (hmem.1 hrow)
  refine ⟨rows.take place, rows.drop (place + 1), ?_, ?_, ?_⟩
  · rw [← List.drop_eq_getElem_cons, List.take_append_drop]
  · intro r hr
    obtain ⟨earlier, hearlier, rfl⟩ := List.mem_take_iff_getElem.1 hr
    exact ⟨earlier, by omega, hmem.2 (List.getElem?_eq_getElem _)⟩
  · intro r hr
    obtain ⟨more, hmore, rfl⟩ := List.mem_drop_iff_getElem.1 hr
    exact ⟨place + 1 + more, by omega, hmem.2 (List.getElem?_eq_getElem _)⟩

theorem eq_nil_of_nil (h : IsChronology stamp rows []) : rows = [] :=
  List.length_eq_zero_iff.1 h.length_eq.symm

/-- The row that is found as the first one is the first one of all. -/
theorem earliestBy?_eq_head? (h : IsChronology stamp rows ordered) :
    earliestBy? stamp rows = ordered.head?.map Prod.fst := by
  cases ordered with
  | nil =>
      rw [h.eq_nil_of_nil]
      rfl
  | cons entry rest =>
      obtain ⟨row, place⟩ := entry
      have hfirst {r : α} {i : Nat} (hmem : (r, i) ∈ (row, place) :: rest) (hi : i ≠ place) :
          Precedes stamp (row, place) (r, i) := by
        obtain heq | hrest := List.mem_cons.1 hmem
        · exact absurd (congrArg Prod.snd heq) hi
        · exact (List.pairwise_cons.1 h.pairwise).1 _ hrest
      obtain ⟨before, after, rfl, hbefore, hafter⟩ := h.exists_split List.mem_cons_self
      rw [List.head?_cons, Option.map_some]
      apply earliestBy?_append_cons
      · intro r hr
        obtain ⟨earlier, hearlier, hmem⟩ := hbefore r hr
        exact (hfirst hmem hearlier.ne).lt hearlier
      · intro r hr
        obtain ⟨later, hlater, hmem⟩ := hafter r hr
        exact (hfirst hmem hlater.ne').le

/-- The row that is found as the last one is the last one of all. -/
theorem latestBy?_eq_getLast? (h : IsChronology stamp rows ordered) :
    latestBy? stamp rows = ordered.getLast?.map Prod.fst := by
  cases hlast : ordered.getLast? with
  | none =>
      rw [List.getLast?_eq_none_iff] at hlast
      subst hlast
      rw [h.eq_nil_of_nil]
      rfl
  | some entry =>
      obtain ⟨row, place⟩ := entry
      obtain ⟨init, rfl⟩ := List.getLast?_eq_some_iff.1 hlast
      have hlast {r : α} {i : Nat} (hmem : (r, i) ∈ init ++ [(row, place)]) (hi : i ≠ place) :
          Precedes stamp (r, i) (row, place) := by
        obtain hinit | heq := List.mem_append.1 hmem
        · exact (List.pairwise_append.1 h.pairwise).2.2 _ hinit _ List.mem_cons_self
        · exact absurd (congrArg Prod.snd (List.mem_singleton.1 heq)) hi
      obtain ⟨before, after, rfl, hbefore, hafter⟩ :=
        h.exists_split (List.mem_append_right init List.mem_cons_self)
      rw [Option.map_some]
      apply latestBy?_append_cons
      · intro r hr
        obtain ⟨earlier, hearlier, hmem⟩ := hbefore r hr
        exact (hlast hmem hearlier.ne).le
      · intro r hr
        obtain ⟨later, hlater, hmem⟩ := hafter r hr
        exact (hlast hmem hlater.ne').lt hlater

end IsChronology

end Targeting.Ledger
