/-
# Blocks are read back, however their text was reflowed

Between being written and being read, a text with blocks may pass through programs that convert
line ends, indent lines or put remarks around blocks. This says what may change, and proves that
the blocks that are read are those that were written. Nothing is said about lines that are added
within a block; there they would belong to it.
-/

import Targeting.Config.Container
import Targeting.Proofs.Crypto.Base64
import Targeting.Proofs.Text.Lines

namespace Targeting.Config

/-! ## Reflowed texts -/

/-- Blanks that do not end a line. -/
def IsPadding (blanks : List Char) : Prop := ∀ c ∈ blanks, Blank.isUnicode c ∧ c ≠ '\n'

/-- A line feed, with or without a carriage return in front. -/
def IsLineEnd (ending : List Char) : Prop := ending = ['\n'] ∨ ending = ['\r', '\n']

/-- A line as it may stand in a file, with blanks around it and either line end. -/
def LaidOut (line laid : List Char) : Prop :=
  ∃ before after ending, IsPadding before ∧ IsPadding after ∧ IsLineEnd ending ∧
    laid = before ++ line ++ after ++ ending

/-- A line that begins no block. -/
structure IsRemark (line : List Char) : Prop where
  oneLine : '\n' ∉ line
  beginsNothing : ¬ "-----BEGIN ".toList <+: Blank.trim line

/-- Whether a line is the last one of a block. -/
def closes (line : List Char) : Bool := "-----END ".toList.isPrefixOf (Blank.trim line)

/-- A text has some lines in order, and apart from them remarks where no block is open. A block
is open from one of the lines to the next one that closes it. -/
inductive Reflows : Bool → List (List Char) → List Char → Prop
  | done {remark : List Char} : IsRemark remark → Reflows false [] remark
  | remark {remark laid text : List Char} {lines : List (List Char)} : IsRemark remark →
      LaidOut remark laid → Reflows false lines text → Reflows false lines (laid ++ text)
  | line {isOpen : Bool} {line laid text : List Char} {lines : List (List Char)} :
      LaidOut line laid → Reflows (!closes line) lines text →
      Reflows isOpen (line :: lines) (laid ++ text)

/-- A file is a text with other line ends, blanks around lines and remarks around blocks. -/
def IsReflowOf (text file : String) : Prop :=
  Reflows false (Split.lines text.toList) file.toList

theorem IsPadding.isUnicode {blanks : List Char} (h : IsPadding blanks) :
    ∀ c ∈ blanks, Blank.isUnicode c :=
  fun c hc => (h c hc).1

theorem IsPadding.feed_not_mem {blanks : List Char} (h : IsPadding blanks) : '\n' ∉ blanks :=
  fun hmem => (h _ hmem).2 rfl

theorem LaidOut.refl (line : List Char) : LaidOut line (line ++ ['\n']) :=
  ⟨[], [], ['\n'], List.forall_mem_nil _, List.forall_mem_nil _, .inl rfl, by simp⟩

/-- A line that is laid out is read as a line that differs in the blanks around it. -/
theorem LaidOut.lines_append {line laid : List Char} (rest : List Char) (hlaid : LaidOut line laid)
    (hline : '\n' ∉ line) :
    ∃ read, Split.lines (laid ++ rest) = read :: Split.lines rest ∧
      Blank.trim read = Blank.trim line := by
  obtain ⟨before, after, ending, hbefore, hafter, hending, rfl⟩ := hlaid
  -- The carriage return of a line end is one more blank after the line.
  obtain ⟨blanks, hblanks, hend⟩ :
      ∃ blanks, IsPadding blanks ∧ after ++ ending = blanks ++ ['\n'] := by
    obtain rfl | rfl := hending
    · exact ⟨after, hafter, rfl⟩
    · refine ⟨after ++ ['\r'], ?_, by simp⟩
      rw [IsPadding, List.forall_mem_append, List.forall_mem_singleton]
      exact ⟨hafter, by decide⟩
  have htext : before ++ line ++ after ++ ending ++ rest =
      (before ++ line ++ blanks) ++ '\n' :: rest := by
    rw [List.append_assoc (before ++ line), hend]
    simp
  have hfeed : '\n' ∉ before ++ line ++ blanks := by
    simp only [List.mem_append, not_or]
    exact ⟨⟨hbefore.feed_not_mem, hline⟩, hblanks.feed_not_mem⟩
  refine ⟨_, by rw [htext, Split.lines_append hfeed], ?_⟩
  rw [Split.trim_withoutReturn, Blank.trim_pad hbefore.isUnicode hblanks.isUnicode]

namespace Block

/-! ## What is written -/

/-- A header line. -/
def headerLine (header : List Char × List Char) : List Char :=
  header.1 ++ [':', ' '] ++ header.2

/-- The lines of a body. -/
def bodyLines (bytes : List UInt8) : List (List Char) :=
  wrapped (Base64.encode bytes).length (Base64.encode bytes)

/-- The lines between the first and the last one of a block. -/
def innerLines (b : Block) : List (List Char) :=
  b.headers.map headerLine ++ (if b.headers.isEmpty then [] else [[]]) ++ bodyLines b.body

theorem lines_eq (b : Block) :
    b.lines = firstLine b.label :: (b.innerLines ++ [lastLine b.label]) := rfl

/-- A header that is read as it was written: its name is a word without colon, and its value is
one line with no blanks around it. -/
structure IsHeader (header : List Char × List Char) : Prop where
  name : ∀ c ∈ header.1, c ≠ ':' ∧ Blank.isUnicode c = false
  value : '\n' ∉ header.2
  trimmed : Blank.trim header.2 = header.2

theorem isHeader_of_all {name value : List Char}
    (hname : name.all fun c => c != ':' && !Blank.isUnicode c) (hvalue : '\n' ∉ value)
    (htrimmed : Blank.trim value = value) : IsHeader (name, value) where
  name c hc := by simpa using List.all_eq_true.1 hname c hc
  value := hvalue
  trimmed := htrimmed

/-- A block that is read as it was written. -/
structure IsWritable (b : Block) : Prop where
  label : '\n' ∉ b.label
  headers : ∀ header ∈ b.headers, IsHeader header

/-- A line that stays within its block, and whose line end does not eat into it. -/
structure IsInner (line : List Char) : Prop where
  oneLine : '\n' ∉ line
  endsPlain : line.getLast? ≠ some '\r'
  closes_eq : closes line = false

/-! ### First and last lines -/

/-- A line between dashes has no blanks around it. -/
theorem trim_dashes (text : List Char) :
    Blank.trim ('-' :: (text ++ "-----".toList)) = '-' :: (text ++ "-----".toList) := by
  have hend : Blank.trimEnd (text ++ "-----".toList) = text ++ "-----".toList := by
    have hlast : text ++ "-----".toList = (text ++ "----".toList) ++ '-' :: [] := by
      rw [List.append_assoc]
      rfl
    rw [hlast, Blank.trimEnd_append_cons (by decide)]
    rfl
  rw [← List.nil_append ('-' :: _), Blank.trim_append_cons (by decide), hend]
  rfl

theorem trim_firstLine (label : List Char) : Blank.trim (firstLine label) = firstLine label :=
  trim_dashes ("----BEGIN ".toList ++ label)

theorem trim_lastLine (label : List Char) : Blank.trim (lastLine label) = lastLine label :=
  trim_dashes ("----END ".toList ++ label)

theorem closes_lastLine (label : List Char) : closes (lastLine label) = true := by
  rw [closes, trim_lastLine, List.isPrefixOf_iff_prefix]
  exact ⟨label ++ "-----".toList, (List.append_assoc _ _ _).symm⟩

theorem closes_firstLine (label : List Char) : closes (firstLine label) = false := by
  rw [closes, trim_firstLine]
  rfl

theorem isOneLine_dashes {marker label : List Char} (hmarker : '\n' ∉ marker)
    (hlabel : '\n' ∉ label) : '\n' ∉ marker ++ label ++ "-----".toList ∧
      (marker ++ label ++ "-----".toList).getLast? ≠ some '\r' := by
  simp only [List.mem_append, not_or]
  refine ⟨⟨⟨hmarker, hlabel⟩, by decide⟩, ?_⟩
  have hlast : "-----".toList.getLast? = some '-' := by decide
  rw [List.getLast?_append, hlast, Option.some_or]
  decide

/-! ### Header lines -/

theorem trim_headerLine {header : List Char × List Char} (h : IsHeader header) :
    Blank.trim (headerLine header) = header.1 ++ ':' :: Blank.trimEnd (' ' :: header.2) := by
  have hline : headerLine header = header.1 ++ ':' :: ' ' :: header.2 := by simp [headerLine]
  rw [hline, Blank.trim_append_cons (by decide),
    Blank.trimStart_eq_self fun c hc => (h.name c hc).2]

theorem once_headerLine {header : List Char × List Char} (h : IsHeader header) :
    Split.once ':' (Blank.trim (headerLine header)) =
      some (header.1, Blank.trimEnd (' ' :: header.2)) := by
  rw [trim_headerLine h, Split.once_append fun hmem => (h.name _ hmem).1 rfl]

/-- The marker of a last line has a blank and no colon, so it neither ends in a header's name nor
goes beyond it. -/
theorem closes_headerLine {header : List Char × List Char} (h : IsHeader header) :
    closes (headerLine header) = false := by
  rw [closes, trim_headerLine h, Bool.eq_false_iff, ne_eq, List.isPrefixOf_iff_prefix]
  intro hmarker
  have hname : header.1 ++ [':'] <+: header.1 ++ ':' :: Blank.trimEnd (' ' :: header.2) := by simp
  obtain hshort | hlong := List.prefix_or_prefix_of_prefix hmarker hname
  · have hblank : ' ' ∈ header.1 ++ [':'] := hshort.subset (by decide)
    rw [List.mem_append, List.mem_singleton] at hblank
    obtain hmem | heq := hblank
    · exact absurd (h.name _ hmem).2 (by decide)
    · exact absurd heq (by decide)
  · have hcolon : ':' ∈ "-----END ".toList := hlong.subset (by simp)
    exact absurd hcolon (by decide)

theorem isInner_headerLine {header : List Char × List Char} (h : IsHeader header) :
    IsInner (headerLine header) where
  oneLine := by
    simp only [headerLine, List.mem_append, not_or]
    refine ⟨⟨fun hmem => ?_, by decide⟩, h.value⟩
    exact absurd (h.name _ hmem).2 (by decide)
  endsPlain := by
    rw [headerLine, List.getLast?_append]
    cases hlast : header.2.getLast? with
    | none => simp
    | some c =>
        rintro heq
        cases heq
        exact absurd (Blank.getLast?_of_trim_eq h.trimmed hlast) (by decide)
  closes_eq := closes_headerLine h

/-! ### Lines of the body -/

theorem wrapped_cons (fuel : Nat) (c : Char) (rest : List Char) :
    wrapped (fuel + 1) (c :: rest) =
      (c :: rest).take 64 :: wrapped fuel ((c :: rest).drop 64) := rfl

theorem flatten_wrapped {fuel : Nat} {text : List Char} (h : text.length ≤ fuel) :
    (wrapped fuel text).flatten = text := by
  induction fuel generalizing text with
  | zero => rw [List.length_eq_zero_iff.1 (Nat.le_zero.1 h)]; rfl
  | succ fuel ih =>
      cases text with
      | nil => rfl
      | cons c rest =>
          have hrest : ((c :: rest).drop 64).length ≤ fuel := by
            rw [List.length_cons] at h
            rw [List.length_drop, List.length_cons]
            omega
          rw [wrapped_cons, List.flatten_cons, ih hrest, List.take_append_drop]

theorem ne_nil_of_mem_wrapped {fuel : Nat} {text line : List Char} (h : line ∈ wrapped fuel text) :
    line ≠ [] := by
  induction fuel generalizing text with
  | zero => cases h
  | succ fuel ih =>
      cases text with
      | nil => cases h
      | cons c rest =>
          rw [wrapped_cons, List.mem_cons] at h
          obtain rfl | h := h
          · simp
          · exact ih h

/-- A line of a body: it is not empty, and all its characters are from base64 text. -/
structure IsBodyLine (line : List Char) : Prop where
  nonempty : line ≠ []
  written : ∀ c ∈ line, Base64.IsWritten c

theorem flatten_bodyLines (bytes : List UInt8) : (bodyLines bytes).flatten = Base64.encode bytes :=
  flatten_wrapped (Nat.le_refl _)

theorem isBodyLine_of_mem_bodyLines {bytes : List UInt8} {line : List Char}
    (h : line ∈ bodyLines bytes) : IsBodyLine line := by
  refine ⟨ne_nil_of_mem_wrapped h, fun c hc => Base64.forall_mem_encode bytes c ?_⟩
  rw [← flatten_bodyLines]
  exact List.mem_flatten_of_mem h hc

theorem IsBodyLine.plain {line : List Char} (h : IsBodyLine line) :
    ∀ c ∈ line, Blank.isUnicode c = false ∧ c ≠ ':' ∧ c ≠ '-' :=
  fun c hc => (h.written c hc).plain

theorem IsBodyLine.trim_eq {line : List Char} (h : IsBodyLine line) : Blank.trim line = line :=
  Blank.trim_eq_self fun c hc => (h.plain c hc).1

theorem IsBodyLine.isInner {line : List Char} (h : IsBodyLine line) : IsInner line where
  oneLine hmem := absurd (h.plain _ hmem).1 (by decide)
  endsPlain hlast := absurd (h.plain _ (List.mem_of_getLast? hlast)).1 (by decide)
  closes_eq := by
    rw [closes, h.trim_eq, Bool.eq_false_iff, ne_eq, List.isPrefixOf_iff_prefix]
    intro hmarker
    exact (h.plain '-' (hmarker.subset (by decide))).2.2 rfl

/-! ### Whole blocks -/

namespace IsWritable

variable {b : Block}

theorem innerLines (hb : b.IsWritable) : ∀ line ∈ b.innerLines, IsInner line := by
  rw [Block.innerLines, List.forall_mem_append, List.forall_mem_append]
  refine ⟨⟨fun line hline => ?_, fun line hline => ?_⟩, fun line hline => ?_⟩
  · obtain ⟨header, hheader, rfl⟩ := List.mem_map.1 hline
    exact isInner_headerLine (hb.headers header hheader)
  · have hempty : line = [] := by
      split at hline
      · cases hline
      · exact List.mem_singleton.1 hline
    subst hempty
    exact ⟨by decide, by decide, by decide⟩
  · exact (isBodyLine_of_mem_bodyLines hline).isInner

/-- The lines of a block can be told apart in a text. -/
theorem lines (hb : b.IsWritable) :
    ∀ line ∈ b.lines, '\n' ∉ line ∧ line.getLast? ≠ some '\r' := by
  rw [lines_eq, List.forall_mem_cons, List.forall_mem_append, List.forall_mem_singleton]
  exact ⟨isOneLine_dashes (by decide) hb.label,
    fun line hline => ⟨(hb.innerLines line hline).oneLine, (hb.innerLines line hline).endsPlain⟩,
    isOneLine_dashes (by decide) hb.label⟩

end IsWritable

/-! ## What is read -/

theorem splitHeaders_cons {header : List Char × List Char} (rest : List (List Char))
    (h : IsHeader header) :
    splitHeaders (Blank.trim (headerLine header) :: rest) =
      (header :: (splitHeaders rest).1, (splitHeaders rest).2) := by
  have hname : Blank.trim header.1 = header.1 :=
    Blank.trim_eq_self fun c hc => (h.name c hc).2
  have hvalue : Blank.trim (Blank.trimEnd (' ' :: header.2)) = header.2 := by
    have hpad : Blank.trim ([' '] ++ header.2 ++ []) = Blank.trim header.2 :=
      Blank.trim_pad (List.forall_mem_singleton.2 (by decide)) (List.forall_mem_nil _)
    rw [List.append_nil, List.singleton_append, h.trimmed] at hpad
    rw [Blank.trim_trimEnd, hpad]
  have hnonempty : (Blank.trim (headerLine header)).isEmpty = false := by
    rw [trim_headerLine h]
    simp
  rw [splitHeaders, hnonempty, if_neg Bool.false_ne_true, once_headerLine h]
  simp only [hname, hvalue]

theorem splitHeaders_append {headers : List (List Char × List Char)} (rest : List (List Char))
    (h : ∀ header ∈ headers, IsHeader header) :
    splitHeaders ((headers.map headerLine).map Blank.trim ++ rest) =
      (headers ++ (splitHeaders rest).1, (splitHeaders rest).2) := by
  induction headers with
  | nil => rfl
  | cons header headers ih =>
      rw [List.forall_mem_cons] at h
      rw [List.map_cons, List.map_cons, List.cons_append, splitHeaders_cons _ h.1, ih h.2]
      rfl

/-- The first line of a body is no header line. -/
theorem splitHeaders_eq_body {body : List (List Char)} (h : ∀ line ∈ body, IsBodyLine line) :
    splitHeaders body = ([], body) := by
  cases body with
  | nil => rfl
  | cons line rest =>
      have hline := h line List.mem_cons_self
      have hnonempty : line.isEmpty = false := by simpa using hline.nonempty
      have hcolon : Split.once ':' line = none :=
        Split.once_eq_none fun hmem => (hline.plain _ hmem).2.1 rfl
      rw [splitHeaders, hnonempty, if_neg Bool.false_ne_true, hcolon]

/-- The header lines are told from the body, with or without a blank line between them. -/
theorem splitHeaders_innerLines {b : Block} (hb : b.IsWritable) :
    splitHeaders (b.innerLines.map Blank.trim) = (b.headers, bodyLines b.body) := by
  have hbody : ∀ line ∈ bodyLines b.body, IsBodyLine line := fun _ hline =>
    isBodyLine_of_mem_bodyLines hline
  have htrim : (bodyLines b.body).map Blank.trim = bodyLines b.body :=
    (List.map_congr_left fun line hline => (hbody line hline).trim_eq).trans (List.map_id _)
  rw [Block.innerLines, List.map_append, List.map_append, htrim, List.append_assoc,
    splitHeaders_append _ hb.headers]
  by_cases hheaders : b.headers.isEmpty
  · rw [if_pos hheaders, List.map_nil, List.nil_append, splitHeaders_eq_body hbody,
      List.append_nil]
  · rw [if_neg hheaders, List.map_singleton, List.singleton_append, Blank.trim_eq_nil
      (List.forall_mem_nil _), splitHeaders, if_pos List.isEmpty_nil, List.append_nil]

theorem labelOf?_eq_some {line label : List Char} (h : Blank.trim line = firstLine label) :
    labelOf? line = some label := by
  have hstart : Split.afterStart? "-----BEGIN ".toList (Blank.trim line) =
      some (label ++ "-----".toList) :=
    Split.afterStart?_eq_some_iff.2 (h.trans (List.append_assoc _ _ _))
  have hend : Split.afterStart? "-----".toList (label ++ "-----".toList).reverse =
      some label.reverse := by
    rw [Split.afterStart?_eq_some_iff, List.reverse_append]
    rfl
  simp only [labelOf?, hstart, Option.bind_eq_bind, Option.bind_some, hend, List.reverse_reverse]

theorem labelOf?_eq_none {line : List Char} (h : ¬ "-----BEGIN ".toList <+: Blank.trim line) :
    labelOf? line = none := by
  have hstart : Split.afterStart? "-----BEGIN ".toList (Blank.trim line) = none := by
    rw [Option.eq_none_iff_forall_ne_some]
    intro rest hrest
    exact h ⟨rest, (Split.afterStart?_eq_some_iff.1 hrest).symm⟩
  simp only [labelOf?, hstart, Option.bind_eq_bind, Option.bind_none]

theorem length_lt_of_untilEnd? {label : List Char} {lines inner rest : List (List Char)}
    (h : untilEnd? label lines = some (inner, rest)) : rest.length < lines.length := by
  induction lines generalizing inner with
  | nil => cases h
  | cons line lines ih =>
      rw [untilEnd?] at h
      split at h
      case isTrue =>
        cases h
        exact Nat.lt_succ_self _
      case isFalse =>
        obtain ⟨⟨inner, rest⟩, hrest, heq⟩ := Option.map_eq_some_iff.1 h
        cases heq
        exact Nat.lt_succ_of_lt (ih hrest)

/-- More fuel than lines makes no difference. -/
theorem all_eq_all {fuel fuel' : Nat} {lines : List (List Char)} (h : lines.length ≤ fuel)
    (h' : lines.length ≤ fuel') : all fuel lines = all fuel' lines := by
  induction fuel generalizing fuel' lines with
  | zero =>
      rw [List.length_eq_zero_iff.1 (Nat.le_zero.1 h)]
      cases fuel' <;> rfl
  | succ fuel ih =>
      cases lines with
      | nil => cases fuel' <;> rfl
      | cons line rest =>
          obtain ⟨fuel', rfl⟩ := Nat.exists_eq_succ_of_ne_zero (Nat.ne_zero_of_lt h')
          rw [List.length_cons, Nat.succ_le_succ_iff] at h h'
          rw [all, all]
          cases hlabel : labelOf? line with
          | none => exact ih h h'
          | some label =>
              cases hend : untilEnd? label rest with
              | none => simp only [hend]
              | some found =>
                  have hlt := length_lt_of_untilEnd? hend
                  have hafter : all fuel found.2 = all fuel' found.2 :=
                    ih (by omega) (by omega)
                  simp only [hend, hafter]

/-- The blocks of some lines, with as much fuel as there are lines. -/
def scan (lines : List (List Char)) : List Block := all lines.length lines

theorem scan_remark {line : List Char} (rest : List (List Char)) (h : labelOf? line = none) :
    scan (line :: rest) = scan rest := by
  simp only [scan, List.length_cons, all, h]

theorem scan_block {line : List Char} {rest inner after : List (List Char)} {b : Block}
    (hlabel : labelOf? line = some b.label) (hend : untilEnd? b.label rest = some (inner, after))
    (hheaders : (splitHeaders inner).1 = b.headers)
    (hbody : Base64.decode? (splitHeaders inner).2.flatten = some b.body) :
    scan (line :: rest) = b :: scan after := by
  have hlt := length_lt_of_untilEnd? hend
  simp only [scan, List.length_cons, all, hlabel, hend, hheaders, hbody]
  rw [all_eq_all (Nat.le_of_lt hlt) (Nat.le_refl _)]

end Block

/-! ## Reading a reflowed text -/

theorem blocksOf_remark {remark laid : List Char} (text : List Char) (h : IsRemark remark)
    (hlaid : LaidOut remark laid) : blocksOf (laid ++ text) = blocksOf text := by
  obtain ⟨read, hlines, htrim⟩ := hlaid.lines_append text h.oneLine
  have hlabel : Block.labelOf? read = none :=
    Block.labelOf?_eq_none (htrim ▸ h.beginsNothing)
  rw [blocksOf, hlines]
  exact Block.scan_remark _ hlabel

namespace Reflows

variable {label text : List Char} {inner lines : List (List Char)}

/-- There is no block in remarks. -/
theorem blocksOf_eq_nil (h : Reflows false [] text) : blocksOf text = [] := by
  generalize hlines : ([] : List (List Char)) = lines at h
  generalize hopen : false = isOpen at h
  induction h with
  | done hremark =>
      have hlabel := Block.labelOf?_eq_none hremark.beginsNothing
      rw [blocksOf, Split.lines_eq_of_not_mem hremark.oneLine]
      split
      · rfl
      · exact Block.scan_remark [] hlabel
  | remark hremark hlaid _ ih => rw [blocksOf_remark _ hremark hlaid, ih hlines hopen]
  | line => cases hlines

/-- Remarks in front of a line are passed over. -/
theorem skip_remarks {line : List Char} (h : Reflows false (line :: lines) text) :
    ∃ laid rest, LaidOut line laid ∧ Reflows (!closes line) lines rest ∧
      blocksOf text = blocksOf (laid ++ rest) := by
  generalize hlines : line :: lines = pending at h
  generalize hopen : false = isOpen at h
  induction h with
  | done => cases hlines
  | remark hremark hlaid _ ih =>
      obtain ⟨laid, rest, hline, hrest, hblocks⟩ := ih hlines hopen
      exact ⟨laid, rest, hline, hrest, by rw [blocksOf_remark _ hremark hlaid, hblocks]⟩
  | line hlaid hrest =>
      cases hlines
      exact ⟨_, _, hlaid, hrest, rfl⟩

/-- A block that is open is read up to its last line. -/
theorem untilEnd?_eq (h : Reflows true (inner ++ Block.lastLine label :: lines) text)
    (hlabel : '\n' ∉ label) (hinner : ∀ line ∈ inner, Block.IsInner line) :
    ∃ rest, Reflows false lines rest ∧
      Block.untilEnd? label (Split.lines text) =
        some (inner.map Blank.trim, Split.lines rest) := by
  induction inner generalizing text with
  | nil =>
      cases h with
      | line hlaid hrest =>
          rename_i rest
          obtain ⟨read, hlines, htrim⟩ :=
            hlaid.lines_append rest (Block.isOneLine_dashes (by decide) hlabel).1
          rw [Block.closes_lastLine] at hrest
          refine ⟨rest, hrest, ?_⟩
          rw [hlines, Block.untilEnd?, htrim, Block.trim_lastLine, if_pos rfl, List.map_nil]
  | cons line inner ih =>
      rw [List.forall_mem_cons] at hinner
      cases h with
      | line hlaid hrest =>
          rename_i after
          obtain ⟨read, hlines, htrim⟩ := hlaid.lines_append after hinner.1.oneLine
          rw [hinner.1.closes_eq] at hrest
          obtain ⟨rest, hclosed, hend⟩ := ih hrest hinner.2
          have hne : Blank.trim line ≠ Block.lastLine label := by
            intro heq
            have hcloses := Block.closes_lastLine label
            rw [closes, Block.trim_lastLine, ← heq, ← closes, hinner.1.closes_eq] at hcloses
            cases hcloses
          refine ⟨rest, hclosed, ?_⟩
          rw [hlines, Block.untilEnd?, htrim, if_neg hne, hend]
          rfl

/-- A written block is read from its first line on. -/
theorem blocksOf_eq_cons {b : Block} (h : Reflows false (b.lines ++ lines) text)
    (hb : b.IsWritable) :
    ∃ rest, Reflows false lines rest ∧ blocksOf text = b :: blocksOf rest := by
  rw [Block.lines_eq, List.cons_append, List.append_assoc, List.singleton_append] at h
  obtain ⟨laid, inside, hlaid, hinside, hblocks⟩ := h.skip_remarks
  rw [Block.closes_firstLine] at hinside
  obtain ⟨rest, hrest, hend⟩ := hinside.untilEnd?_eq hb.label hb.innerLines
  obtain ⟨read, hlines, htrim⟩ :=
    hlaid.lines_append inside (Block.isOneLine_dashes (by decide) hb.label).1
  have hlabel : Block.labelOf? read = some b.label :=
    Block.labelOf?_eq_some (htrim.trans (Block.trim_firstLine b.label))
  have hheaders := Block.splitHeaders_innerLines hb
  refine ⟨rest, hrest, ?_⟩
  rw [hblocks, blocksOf, hlines]
  refine Block.scan_block hlabel hend (by rw [hheaders]) ?_
  rw [hheaders, Block.flatten_bodyLines, Base64.decode?_encode]

/-- Lines up to one that closes a block, as they are written. -/
theorem of_written {isOpen : Bool} {last : List Char} (hlast : closes last)
    (h : Reflows false lines text) :
    Reflows isOpen (inner ++ last :: lines)
      ((inner ++ [last]).flatMap (fun line => line ++ ['\n']) ++ text) := by
  induction inner generalizing isOpen with
  | nil =>
      rw [List.nil_append, List.nil_append, List.flatMap_singleton]
      exact .line (LaidOut.refl last) (hlast ▸ h)
  | cons line inner ih =>
      rw [List.cons_append, List.cons_append, List.flatMap_cons, List.append_assoc]
      exact .line (LaidOut.refl line) ih

/-- Blocks as they are written are a reflow of their lines. -/
theorem refl (blocks : List Block) :
    Reflows false (blocks.flatMap Block.lines)
      ((blocks.flatMap Block.lines).flatMap fun line => line ++ ['\n']) := by
  induction blocks with
  | nil => exact .done ⟨List.not_mem_nil, by decide⟩
  | cons b blocks ih =>
      have hlines : b.lines =
          (Block.firstLine b.label :: b.innerLines) ++ [Block.lastLine b.label] := rfl
      rw [List.flatMap_cons, hlines, List.flatMap_append, List.append_assoc, List.singleton_append]
      exact ih.of_written (Block.closes_lastLine b.label)

end Reflows

/-- **Blocks are read as they were written**, whatever the line ends, the blanks around lines and
the remarks around blocks. -/
theorem blocksOf_of_reflows {blocks : List Block} (hblocks : ∀ b ∈ blocks, b.IsWritable)
    {text : List Char} (h : Reflows false (blocks.flatMap Block.lines) text) :
    blocksOf text = blocks := by
  induction blocks generalizing text with
  | nil => exact h.blocksOf_eq_nil
  | cons b blocks ih =>
      rw [List.forall_mem_cons] at hblocks
      obtain ⟨rest, hrest, heq⟩ := h.blocksOf_eq_cons hblocks.1
      rw [heq, ih hblocks.2 hrest]

end Targeting.Config
