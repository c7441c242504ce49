/-
# The text of a version number

A version number can be spelled in many ways: with a `v` in front, with plus signs and zeros
before its components, and with any dashes after the first of its suffix. Whatever the spelling,
the version that is read is well-formed: it has components, none of them negative, and a suffix
starts with a dash. These are the versions that can be read at all, as each of them is read from
the text that it is written as.
-/

import Targeting.Proofs.Number.Digits
import Targeting.Proofs.Text.Parts
import Targeting.Version

namespace Targeting

/-- A numeral without a minus sign stands for no negative number. -/
theorem Word.nonneg_of_parse? {text : List Char} {i : Int64} (hplain : '-' ∉ text)
    (h : Word.parse? text = some i) : 0 ≤ i := by
  obtain ⟨z, hsigned, hword⟩ := Option.bind_eq_some_iff.1 h
  rw [Int64.le_iff_toInt_le, Word.toInt_of_ofInt? hword]
  unfold Digits.signed? at hsigned
  split at hsigned
  case h_1 digits => exact absurd List.mem_cons_self hplain
  case h_2 =>
    obtain ⟨n, -, rfl⟩ := Option.map_eq_some_iff.1 hsigned
    exact Int.natCast_nonneg n

namespace Version

/-- A version that can be read: it has components, none of them negative, and a suffix that is empty
or starts with a dash. -/
structure WellFormed (v : Version) : Prop where
  ne_nil : v.components ≠ []
  nonneg : ∀ c ∈ v.components, 0 ≤ c
  suffix : v.suffix = "" ∨ v.suffix.toList.head? = some '-'

variable {v : Version} {text : String} {components : List Int64} {parts : List (List Char)}
  {chars : List Char}

/-! ## What is read -/

/-- A text without a `v` in front. -/
def withoutMark : List Char → List Char
  | 'v' :: rest => rest
  | chars => chars

theorem withoutMark_of_ne (h : ∀ c ∈ chars.head?, c ≠ 'v') : withoutMark chars = chars := by
  unfold withoutMark
  split
  case h_1 rest => exact absurd rfl (h 'v' rfl)
  case h_2 => rfl

theorem parse?_eq (text : String) : parse? text =
    (parseComponents? (Split.on '.' ((withoutMark text.toList).takeWhile (· ≠ '-')))).map
      fun components =>
        ⟨components, String.ofList ((withoutMark text.toList).dropWhile (· ≠ '-'))⟩ := rfl

/-- Every part gives a component, and a minus sign would have to be in the part. -/
theorem nonneg_of_parseComponents? (hplain : ∀ part ∈ parts, '-' ∉ part)
    (h : parseComponents? parts = some components) :
    components.length = parts.length ∧ ∀ c ∈ components, 0 ≤ c := by
  induction parts generalizing components with
  | nil =>
      cases h
      exact ⟨rfl, nofun⟩
  | cons first rest ih =>
      obtain ⟨hfirst, hrest⟩ := List.forall_mem_cons.1 hplain
      obtain ⟨c, hc, h⟩ := Option.bind_eq_some_iff.1 h
      obtain ⟨others, hothers, h⟩ := Option.bind_eq_some_iff.1 h
      cases h
      obtain ⟨hlength, hnonneg⟩ := ih hrest hothers
      exact ⟨congrArg Nat.succ hlength,
        List.forall_mem_cons.2 ⟨Word.nonneg_of_parse? hfirst hc, hnonneg⟩⟩

theorem wellFormed_of_parse? (h : parse? text = some v) : v.WellFormed := by
  rw [parse?_eq] at h
  obtain ⟨components, hcomponents, rfl⟩ := Option.map_eq_some_iff.1 h
  generalize withoutMark text.toList = chars at hcomponents
  have hplain : ∀ part ∈ Split.on '.' (chars.takeWhile (· ≠ '-')), '-' ∉ part := by
    intro part hpart hdash
    simpa using List.mem_takeWhile_imp (Split.mem_of_mem_on hpart hdash)
  obtain ⟨hlength, hnonneg⟩ := nonneg_of_parseComponents? hplain hcomponents
  refine ⟨?_, hnonneg, ?_⟩
  · rintro rfl
    exact Split.on_ne_nil _ (List.length_eq_zero_iff.1 hlength.symm)
  · generalize hrest : chars.dropWhile (· ≠ '-') = rest
    cases rest with
    | nil => exact .inl rfl
    | cons c rest =>
        have hstop := List.head?_dropWhile_not (· ≠ '-') chars
        rw [hrest] at hstop
        exact .inr (by simpa using hstop)

/-! ## What is written -/

/-- The digits of a component that is not negative. -/
def digitsOf (c : Int64) : List Char := Digits.ofNat c.toInt.toNat

theorem ofInt_toInt {c : Int64} (hc : 0 ≤ c) : Digits.ofInt c.toInt = digitsOf c := by
  have hnonneg : 0 ≤ c.toInt := Int64.le_iff_toInt_le.1 hc
  rw [digitsOf]
  generalize c.toInt = z at hnonneg ⊢
  obtain ⟨n, rfl⟩ := Int.eq_ofNat_of_zero_le hnonneg
  rfl

/-- Components are written with a dot in front of each but the first. -/
theorem renderComponents_cons {first : Int64} {others : List Int64}
    (hnonneg : ∀ c ∈ first :: others, 0 ≤ c) :
    renderComponents (first :: others) =
      digitsOf first ++ (others.map digitsOf).flatMap ('.' :: ·) := by
  induction others generalizing first with
  | nil =>
      rw [renderComponents, ofInt_toInt (hnonneg first List.mem_cons_self)]
      exact (List.append_nil _).symm
  | cons next more ih =>
      obtain ⟨hfirst, hothers⟩ := List.forall_mem_cons.1 hnonneg
      rw [renderComponents, ofInt_toInt hfirst, ih hothers, List.map_cons, List.flatMap_cons,
        List.cons_append]
      exact List.cons_ne_nil _ _

/-- The components are the parts of their text. -/
theorem on_renderComponents (hne : components ≠ []) (hnonneg : ∀ c ∈ components, 0 ≤ c) :
    Split.on '.' (renderComponents components) = components.map digitsOf := by
  obtain ⟨first, others, rfl⟩ := List.exists_cons_of_ne_nil hne
  rw [List.map_cons, Split.on_eq_cons_iff, ← List.map_cons]
  refine ⟨fun part hpart hdot => ?_, renderComponents_cons hnonneg⟩
  obtain ⟨c, -, rfl⟩ := List.mem_map.1 hpart
  exact absurd (Digits.isDigit_of_mem_ofNat hdot) (by decide)

theorem parseComponents?_digitsOf (hnonneg : ∀ c ∈ components, 0 ≤ c) :
    parseComponents? (components.map digitsOf) = some components := by
  induction components with
  | nil => rfl
  | cons c rest ih =>
      obtain ⟨hc, hrest⟩ := List.forall_mem_cons.1 hnonneg
      rw [List.map_cons, parseComponents?, digitsOf, Word.parse?_ofNat hc, ih hrest]
      rfl

theorem renderComponents_ne_nil (hne : components ≠ []) (hnonneg : ∀ c ∈ components, 0 ≤ c) :
    renderComponents components ≠ [] := by
  obtain ⟨first, others, rfl⟩ := List.exists_cons_of_ne_nil hne
  rw [renderComponents_cons hnonneg]
  exact List.append_ne_nil_of_left_ne_nil (Digits.ofNat_ne_nil _) _

/-- The text of components consists of digits and dots. -/
theorem isDigit_or_of_mem_renderComponents (hnonneg : ∀ c ∈ components, 0 ≤ c) {char : Char}
    (h : char ∈ renderComponents components) : char.isDigit ∨ char = '.' := by
  cases components with
  | nil => cases h
  | cons first others =>
      rw [renderComponents_cons hnonneg, List.mem_append, List.mem_flatMap] at h
      obtain hfirst | ⟨part, hpart, h⟩ := h
      · exact .inl (Digits.isDigit_of_mem_ofNat hfirst)
      · obtain ⟨c, -, rfl⟩ := List.mem_map.1 hpart
        obtain rfl | hdigit := List.mem_cons.1 h
        · exact .inr rfl
        · exact .inl (Digits.isDigit_of_mem_ofNat hdigit)

/-- The text of a version is cut where its suffix begins, and has no `v` in front. -/
theorem parse?_render (h : v.WellFormed) : parse? v.render = some v := by
  obtain ⟨components, suffix⟩ := v
  obtain ⟨hne, hnonneg, hsuffix⟩ := h
  dsimp only at hne hnonneg hsuffix
  have hnumbers : ∀ c ∈ renderComponents components, decide (c ≠ '-') = true := by
    intro c hc
    rw [decide_eq_true_iff]
    rintro rfl
    exact absurd (isDigit_or_of_mem_renderComponents hnonneg hc) (by decide)
  have hmark : ∀ c ∈ (renderComponents components ++ suffix.toList).head?, c ≠ 'v' := by
    rw [List.head?_append_of_ne_nil _ (renderComponents_ne_nil hne hnonneg)]
    rintro c hc rfl
    exact absurd (isDigit_or_of_mem_renderComponents hnonneg (List.mem_of_mem_head? hc))
      (by decide)
  have hcut : suffix.toList.takeWhile (· ≠ '-') = [] ∧
      suffix.toList.dropWhile (· ≠ '-') = suffix.toList := by
    obtain rfl | hdash := hsuffix
    · exact ⟨rfl, rfl⟩
    · obtain ⟨rest, hrest⟩ := List.head?_eq_some_iff.1 hdash
      rw [hrest]
      exact ⟨rfl, rfl⟩
  rw [parse?_eq, render, String.toList_ofList, withoutMark_of_ne hmark,
    List.takeWhile_append_of_pos hnumbers, List.dropWhile_append_of_pos hnumbers, hcut.1, hcut.2,
    List.append_nil, on_renderComponents hne hnonneg, parseComponents?_digitsOf hnonneg,
    Option.map_some, String.ofList_toList]

/-- The versions that are read from some text are the well-formed ones. -/
theorem exists_parse?_eq_some_iff : (∃ text, parse? text = some v) ↔ v.WellFormed :=
  ⟨fun ⟨_, h⟩ => wellFormed_of_parse? h, fun h => ⟨v.render, parse?_render h⟩⟩

/-- **A version that was read reads back from its own text.** However the text is spelled from which
it was read, the version has components, none of them is negative, and its suffix is empty or starts
with a dash. -/
theorem written_version_reads_back (h : parse? text = some v) :
    v.components ≠ [] ∧ (∀ c ∈ v.components, 0 ≤ c) ∧
      (v.suffix = "" ∨ v.suffix.toList.head? = some '-') ∧ parse? v.render = some v := by
  have hv : v.WellFormed := exists_parse?_eq_some_iff.1 ⟨text, h⟩
  exact ⟨hv.ne_nil, hv.nonneg, hv.suffix, parse?_render hv⟩

/-- Signs, zeros and the `v` are not written again, the greatest component and all dashes of the
suffix are. -/
theorem padded_version_reads_back :
    let v : Version := ⟨[1, 20, 9223372036854775807], "--rc.01-2"⟩
    parse? "v+01.020.+9223372036854775807--rc.01-2" = some v ∧
      v.render = "1.20.9223372036854775807--rc.01-2" ∧ parse? v.render = some v ∧
      v.components ≠ [] ∧ (∀ c ∈ v.components, 0 ≤ c) ∧
      (v.suffix = "" ∨ v.suffix.toList.head? = some '-') := by
  intro v
  have hread : parse? "v+01.020.+9223372036854775807--rc.01-2" = some v := by decide +kernel
  obtain ⟨hne, hnonneg, hsuffix, hback⟩ := written_version_reads_back hread
  exact ⟨hread, by decide +kernel, hback, hne, hnonneg, hsuffix⟩

end Version

end Targeting
