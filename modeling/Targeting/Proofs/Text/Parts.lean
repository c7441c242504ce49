/-
# Texts of parts

A text that is cut at a separator is given back by its parts, and the parts are the only ones
without a separator in them that give it back. So cutting a text loses nothing, and two ways to
cut it cannot disagree.
-/

import Targeting.Proofs.Text.Lines

namespace Targeting.Split

variable {separator : Char} {text before after first : List Char} {others : List (List Char)}

/-! ## One cut -/

/-- A text is cut at its first separator. -/
theorem once_eq_some_iff :
    once separator text = some (before, after) ↔
      separator ∉ before ∧ text = before ++ separator :: after := by
  constructor
  · intro h
    induction text generalizing before with
    | nil => cases h
    | cons c rest ih =>
        rw [once] at h
        split at h
        case isTrue hc =>
          cases h
          exact ⟨List.not_mem_nil, by rw [hc, List.nil_append]⟩
        case isFalse hc =>
          obtain ⟨⟨shorter, more⟩, hrest, heq⟩ := Option.map_eq_some_iff.1 h
          cases heq
          obtain ⟨hmem, rfl⟩ := ih hrest
          exact ⟨by simp [hmem, Ne.symm hc], rfl⟩
  · rintro ⟨hmem, rfl⟩
    exact once_append hmem

theorem onceLast_eq_none_iff : onceLast separator text = none ↔ separator ∉ text := by
  induction text with
  | nil => simp [onceLast]
  | cons c rest ih =>
      rw [onceLast, List.mem_cons, not_or, ← ih]
      cases onceLast separator rest with
      | some cut => simp
      | none => simp [eq_comm]

/-- A text is cut at its last separator. -/
theorem onceLast_eq_some_iff :
    onceLast separator text = some (before, after) ↔
      separator ∉ after ∧ text = before ++ separator :: after := by
  constructor
  · intro h
    induction text generalizing before with
    | nil => cases h
    | cons c rest ih =>
        rw [onceLast] at h
        cases hrest : onceLast separator rest with
        | some cut =>
            rw [hrest] at h
            cases h
            obtain ⟨hmem, rfl⟩ := ih hrest
            exact ⟨hmem, rfl⟩
        | none =>
            simp only [hrest] at h
            split at h
            case isTrue hc =>
              cases h
              exact ⟨onceLast_eq_none_iff.1 hrest, by rw [hc, List.nil_append]⟩
            case isFalse => cases h
  · rintro ⟨hmem, rfl⟩
    induction before with
    | nil =>
        rw [List.nil_append, onceLast, onceLast_eq_none_iff.2 hmem]
        exact if_pos rfl
    | cons c before ih => rw [List.cons_append, onceLast, ih]

/-! ## All cuts -/

/-- The parts of a text have no separators in them, and the text is written with a separator in
front of every part but the first. -/
theorem on_eq_cons_iff :
    on separator text = first :: others ↔
      (∀ part ∈ first :: others, separator ∉ part) ∧
        text = first ++ others.flatMap (separator :: ·) := by
  constructor
  · intro h
    induction text generalizing first others with
    | nil =>
        cases h
        exact ⟨by simp, rfl⟩
    | cons c rest ih =>
        obtain ⟨next, more, hrest⟩ : ∃ next more, on separator rest = next :: more :=
          List.exists_cons_of_ne_nil (on_ne_nil rest)
        obtain ⟨hplain, htext⟩ := ih hrest
        rw [on, hrest] at h
        split at h
        case isTrue hc =>
          cases h
          exact ⟨by simpa using hplain, by rw [htext, hc]; rfl⟩
        case isFalse hc =>
          cases h
          rw [List.forall_mem_cons] at hplain
          refine ⟨?_, by rw [htext, List.cons_append]⟩
          rw [List.forall_mem_cons]
          exact ⟨by simp [Ne.symm hc, hplain.1], hplain.2⟩
  · rintro ⟨hplain, rfl⟩
    induction others generalizing first with
    | nil => simpa using on_eq_singleton (hplain first List.mem_cons_self)
    | cons next more ih =>
        rw [List.forall_mem_cons] at hplain
        rw [List.flatMap_cons, List.cons_append, on_append hplain.1, ih hplain.2]

/-- The parts of a text have no other characters in them than the text. -/
theorem mem_of_mem_on {part : List Char} {c : Char} (hpart : part ∈ on separator text)
    (hc : c ∈ part) : c ∈ text := by
  have hne : on separator text ≠ [] := on_ne_nil text
  obtain ⟨first, others, hparts⟩ := List.exists_cons_of_ne_nil hne
  rw [hparts, List.mem_cons] at hpart
  rw [(on_eq_cons_iff.1 hparts).2, List.mem_append]
  obtain rfl | hother := hpart
  · exact .inl hc
  · exact .inr (List.mem_flatMap.2 ⟨part, hother, List.mem_cons_of_mem _ hc⟩)

end Targeting.Split
