/-
# Dates that name their zone

Three of the named patterns end in the name of a zone. In UTC it is written as `UTC`, but reading
passes over it, and nothing else in these patterns tells the offset. So a text that says `UTC` is
read on the clock of the zone that is asked for, and on the device's own clock if none is. It is
read as the time that was written, to the precision of the pattern, only if that clock then shows
UTC.
-/

import Targeting.Proofs.Calendar.ReadBack
import Targeting.Proofs.Calendar.Seasons
import Targeting.Proofs.Condition.Timestamps

namespace Targeting

namespace Calendar

/-! ## Offsets of a zone -/

/-- The offsets that the clock of a zone can have. -/
def Zone.offsets : Zone → List Int
  | utc => [0]
  | fixed offset => [offset]
  | seasonal s => [s.standard, s.daylight]

/-- The offsets of a zone are less than a day. -/
def Zone.IsShort (zone : Zone) : Prop := ∀ offset ∈ zone.offsets, offset.natAbs < 86400

instance (zone : Zone) : Decidable zone.IsShort :=
  inferInstanceAs (Decidable (∀ offset ∈ zone.offsets, offset.natAbs < 86400))

/-- The offsets of a wall time, first reading first. -/
def Offsets.toList : Offsets → List Int
  | skipped => []
  | once offset => [offset]
  | twice first second => [first, second]

theorem Zone.offsetsOf_subset (zone : Zone) (wall : Int) :
    (zone.offsetsOf wall).toList ⊆ zone.offsets := by
  cases zone with
  | utc | fixed _ => exact List.Subset.refl _
  | seasonal s =>
      simp only [offsetsOf]
      repeat' split
      all_goals simp [Offsets.toList, offsets]

section Readings

variable {w : WallTime} {zone : Zone}

theorem WallTime.onClock?_of_year (hyear : 0 ≤ w.date.year ∧ w.date.year < 10000) {offset : Int}
    (hoffset : offset.natAbs < 86400) : w.onClock? offset =
      some ⟨⟨(w.seconds - offset) * 1000000 + (w.nanos / 1000 : Nat)⟩, offset⟩ := by
  rw [onClock?, instantAt?]
  exact congrArg (Option.map _) (if_pos (inRange_of_year hyear hoffset))

/-- In the years of four digits a wall time is read unless the clock skips it. -/
theorem Zone.firstReading?_of_year (hzone : zone.IsShort)
    (hyear : 0 ≤ w.date.year ∧ w.date.year < 10000) : zone.firstReading? w =
      (zone.offsetsOf w.seconds).first?.map fun offset =>
        ⟨⟨(w.seconds - offset) * 1000000 + (w.nanos / 1000 : Nat)⟩, offset⟩ := by
  have hshort (offset : Int) (h : offset ∈ (zone.offsetsOf w.seconds).toList) :=
    WallTime.onClock?_of_year hyear (hzone offset (zone.offsetsOf_subset _ h))
  rw [firstReading?]
  cases hoffsets : zone.offsetsOf w.seconds with
  | skipped => rfl
  | once offset => exact hshort offset (by simp [hoffsets, Offsets.toList])
  | twice first second =>
      dsimp only
      rw [hshort first (by simp [hoffsets, Offsets.toList]),
        hshort second (by simp [hoffsets, Offsets.toList])]
      rfl

end Readings

/-- A zone by name is the device's own, or it is UTC or a fixed offset of less than a day. -/
theorem Zone.isShort_of_parse? {device zone : Zone} {name : String} (hdevice : device.IsShort)
    (h : Zone.parse? device name = some zone) : zone.IsShort := by
  unfold Zone.parse? at h
  split at h
  case isTrue => exact Option.some.inj h ▸ hdevice
  case isFalse =>
    split at h
    case isTrue =>
      obtain rfl := Option.some.inj h
      decide
    case isFalse =>
      obtain ⟨offset, hoffset, rfl⟩ := Option.map_eq_some_iff.1 h
      simpa [IsShort, offsets] using (minutes_of_parseOffset? hoffset).2

end Calendar

namespace Condition.DateText

open Calendar

variable {device zone : Zone} {name pattern : String} {millis : Int64}

/-! ## Patterns with the name of a zone -/

/-- Names of the patterns that end in the name of a zone. -/
def zoneNamed : List String := ["RFC822", "RFC850", "RFC1123"]

/-- The seconds that a pattern with the name of a zone can tell apart. -/
def precision (pattern : String) : Int :=
  if constant? "RFC822" = some pattern then 60 else 1

/-- Seconds of a time since 1970, as far as a pattern shows them. -/
def shownSeconds (pattern : String) (millis : Int64) : Int :=
  millis.toInt / 1000 / precision pattern * precision pattern

/-- A pattern that shows a date and a time of day and then the name of a zone, which nothing but the
clock can tell. -/
structure ShowsUnzoned (pattern : String) (ps : List Piece) : Prop where
  pieces : Pattern.parse? pattern = some (ps ++ [.space [' '], .zoneName])
  plain : Pattern.isPlain (ps ++ [.space [' '], .zoneName])
  written : pattern ≠ "dow" ∧ shortcuts.lookup pattern = none
  along : pattern ≠ "" ∧ constant? "RFC3339" ≠ some pattern ∧
    constant? "date_with_tz_format" ≠ some pattern
  instant (w : WallTime) : (ps.foldl (Read.tell w) {}).instant? = none
  wall {w : WallTime} (hyear : 1970 ≤ w.date.year ∧ w.date.year ≤ 2069)
    (hnanos : w.nanos < 1000000000) : (ps.foldl (Read.tell w) {}).wall? 0 =
      some ⟨w.seconds / precision pattern * precision pattern, 0⟩

theorem exists_showsUnzoned (hname : name ∈ zoneNamed) (hpattern : constant? name = some pattern) :
    ∃ ps, ShowsUnzoned pattern ps := by
  have hrange {w : WallTime} (h : 1970 ≤ w.date.year ∧ w.date.year ≤ 2069) :
      0 ≤ w.date.year ∧ w.date.year < 10000 := by omega
  have hweekday (w : WallTime) : ∀ day ∈ some w.date.weekday, day = w.date.weekday :=
    fun _ h => (Option.some.inj h).symm
  have hnone {w : WallTime} : ∀ day ∈ (none : Option Weekday), day = w.date.weekday := nofun
  simp only [zoneNamed, List.mem_cons, List.not_mem_nil, or_false] at hname
  obtain rfl | rfl | rfl := hname <;> obtain rfl := Option.some.inj hpattern
  · exact ⟨[.number .day .zero, .space [' '], .monthName false, .space [' '],
      .number .yearOfCentury .zero, .space [' '], .number .hour .zero, .literal [':'],
      .number .minute .zero], {
        pieces := by decide +kernel
        plain := by decide
        written := by decide
        along := by decide
        instant := fun _ => rfl
        wall := fun hyear _ =>
          Clues.wall?_shown_minute (Clues.fullYear_of_century hyear) (hrange hyear) hnone }⟩
  · exact ⟨[.weekdayName true, .literal [','], .space [' '], .number .day .zero, .literal ['-'],
      .monthName false, .literal ['-'], .number .yearOfCentury .zero, .space [' '],
      .number .hour .zero, .literal [':'], .number .minute .zero, .literal [':'],
      .number .second .zero], {
        pieces := by decide +kernel
        plain := by decide
        written := by decide
        along := by decide
        instant := fun _ => rfl
        wall := fun {w} hyear hnanos => by
          rw [show precision _ = 1 from rfl, Int.ediv_one, Int.mul_one]
          exact Clues.wall?_shown_second (Clues.fullYear_of_century hyear) (hrange hyear)
            (hweekday w) hnanos }⟩
  · exact ⟨[.weekdayName false, .literal [','], .space [' '], .number .day .zero, .space [' '],
      .monthName false, .space [' '], .number .year .zero, .space [' '], .number .hour .zero,
      .literal [':'], .number .minute .zero, .literal [':'], .number .second .zero], {
        pieces := by decide +kernel
        plain := by decide
        written := by decide
        along := by decide
        instant := fun _ => rfl
        wall := fun {w} hyear hnanos => by
          rw [show precision _ = 1 from rfl, Int.ediv_one, Int.mul_one]
          exact Clues.wall?_shown_second rfl (hrange hyear) (hweekday w) hnanos }⟩

/-! ## Writing and reading -/

variable {ps : List Piece}

/-- What a clock in UTC shows at a time. -/
theorem seconds_wall_utc (millis : Int64) :
    (Zone.utc.reading (instantOf millis)).wall.seconds = millis.toInt / 1000 := by
  simp only [Zone.reading, Zone.clock, ClockTime.wall, Zone.offsetAt, instantOf, Instant.seconds]
  omega

theorem isWord_utc : Read.IsWord ['U', 'T', 'C'] := by
  refine ⟨by decide, fun c hc => ?_⟩
  simp only [List.mem_cons, List.not_mem_nil, or_false] at hc
  obtain rfl | rfl | rfl := hc <;> decide

/-- A time in UTC is written so that it ends in `UTC`, and reading tells all but that. -/
theorem format_showsUnzoned (device : Zone) (h : ShowsUnzoned pattern ps)
    (hyear : 0 ≤ localYear .utc millis ∧ localYear .utc millis < 10000) :
    ∃ before : List Char,
      format device millis pattern (some "UTC") =
        .text (String.ofList (before ++ [' ', 'U', 'T', 'C'])) ∧
      clues? pattern (String.ofList (before ++ [' ', 'U', 'T', 'C'])) =
        some (ps.foldl (Read.tell (Zone.utc.reading (instantOf millis)).wall) {}) := by
  obtain ⟨text, hwrite, hread⟩ := Read.exists_pieces (r := Zone.utc.reading (instantOf millis))
    hyear (ClockTime.isWhole_wall _).1 h.plain isWord_utc
  have hinstant : Instant.ofMillis? millis.toInt = some (instantOf millis) :=
    if_pos (Zone.utc.inRange_of_year _ hyear (Nat.zero_lt_succ _))
  have hzone : zone? device (some "UTC") = some .utc := rfl
  obtain ⟨before, -, hends⟩ := Option.bind_eq_some_iff.1
    ((Print.pieces_append _ _ _).symm.trans hwrite)
  obtain rfl : before ++ [' ', 'U', 'T', 'C'] = text := Option.some.inj hends
  have hwritten : write (Zone.utc.reading (instantOf millis)) pattern =
      some (before ++ [' ', 'U', 'T', 'C']) := by
    rw [write, if_neg h.written.1, h.written.2, Option.getD_none, h.pieces, Option.bind_eq_bind,
      Option.bind_some, hwrite]
  refine ⟨before, ?_, ?_⟩
  · obtain ⟨first, rest, htext, hmem⟩ : ∃ first rest,
        before ++ [' ', 'U', 'T', 'C'] = first :: rest ∧ 'C' ∈ rest := by
      cases before with
      | nil => exact ⟨_, _, rfl, by decide⟩
      | cons first more => exact ⟨first, _, rfl, by simp⟩
    have hword : Word.parse? (first :: rest) = none := by
      rw [Word.parse?, Digits.signed?_eq_none hmem (by decide), Option.bind_none]
    rw [htext] at hwritten ⊢
    simp only [format, hzone, Option.bind_eq_bind, Option.bind_some, hinstant, hwritten, hword]
  · rw [clues?, h.pieces, Option.bind_eq_bind, Option.bind_some, Clues.read?, String.toList_ofList,
      hread _ (Clues.of_empty _), List.foldl_append]
    rfl

theorem resolve_of_year (hzone : zone.IsShort) {seconds : Int}
    (hyear : 0 ≤ (WallTime.mk seconds 0).date.year ∧ (WallTime.mk seconds 0).date.year < 10000) :
    resolve zone ⟨seconds, 0⟩ =
      (zone.offsetsOf seconds).first?.map fun offset => (seconds - offset) * 1000 := by
  rw [resolve, Zone.firstReading?_of_year hzone hyear, Option.map_map]
  refine congrArg (Option.map · _) (funext fun offset => ?_)
  simp only [Function.comp_apply, Instant.millis]
  omega

theorem isShort_of_zone? {zoneName : Option String} (hdevice : device.IsShort)
    (h : zone? device zoneName = some zone) : zone.IsShort := by
  unfold zone? at h
  split at h
  case h_1 => exact Option.some.inj h ▸ hdevice
  case h_2 =>
    split at h
    case isTrue => exact Option.some.inj h ▸ hdevice
    case isFalse => exact Zone.isShort_of_parse? hdevice h

/-- Times in the years from 1970 on are not negative. -/
theorem toInt_nonneg_of_year (hyear : 1970 ≤ localYear .utc millis) : 0 ≤ millis.toInt := by
  obtain ⟨hfrom, -⟩ := Date.year_eq_iff.1 (Eq.refl (localYear .utc millis))
  have hfirst := Date.newYear_le hyear
  have hepoch : (Date.newYear 1970).dayNumber = 0 := by decide
  have hseconds := seconds_wall_utc millis
  simp only [WallTime.date, secondsPerDay] at hfrom
  omega

/-- The shown part of a time is on the same day. -/
theorem date_shownSeconds (pattern : String) (millis : Int64) :
    (WallTime.mk (shownSeconds pattern millis) 0).date =
      (Zone.utc.reading (instantOf millis)).wall.date := by
  rw [WallTime.date, WallTime.date, seconds_wall_utc, shownSeconds, precision]
  refine congrArg Date.mk ?_
  simp only [secondsPerDay]
  split <;> omega

theorem exists_truncated (pattern : String) (hmillis : 0 ≤ millis.toInt) :
    ∃ truncated : Int64, truncated.toInt = shownSeconds pattern millis * 1000 := by
  have hbounds : 0 ≤ shownSeconds pattern millis * 1000 ∧
      shownSeconds pattern millis * 1000 ≤ millis.toInt := by
    rw [shownSeconds, precision]
    split <;> omega
  refine ⟨Int64.ofInt (shownSeconds pattern millis * 1000), Int64.toInt_ofInt_of_le ?_ ?_⟩
  · exact Int.le_trans (by decide) hbounds.1
  · exact Int.lt_of_le_of_lt (Int.le_trans hbounds.2 (Int64.toInt_le millis)) (by decide)

/-- The text of a time in UTC is read on the clock of the zone. -/
theorem parse_showsUnzoned (h : ShowsUnzoned pattern ps)
    (hyear : 1970 ≤ localYear .utc millis ∧ localYear .utc millis ≤ 2069) {text : String}
    (hclues : clues? pattern text =
      some (ps.foldl (Read.tell (Zone.utc.reading (instantOf millis)).wall) {}))
    (hshort : zone.IsShort) {zoneName : Option String} (hzone : zone? device zoneName = some zone) :
    parse device text (some pattern) zoneName =
      (zone.offsetsOf (shownSeconds pattern millis)).first?.bind fun offset =>
        Word.ofInt? ((shownSeconds pattern millis - offset) * 1000) := by
  have hrange : 0 ≤ localYear .utc millis ∧ localYear .utc millis < 10000 := by omega
  have hday : 0 ≤ (WallTime.mk (shownSeconds pattern millis) 0).date.year ∧
      (WallTime.mk (shownSeconds pattern millis) 0).date.year < 10000 := by
    rw [date_shownSeconds]
    exact hrange
  have hwall := h.wall hyear (ClockTime.isWhole_wall _).1
  rw [seconds_wall_utc, ← shownSeconds] at hwall
  have halong : parseAlong zone pattern text =
      (zone.offsetsOf (shownSeconds pattern millis)).first?.map fun offset =>
        (shownSeconds pattern millis - offset) * 1000 := by
    simp only [parseAlong, hclues, Option.bind_eq_bind, Option.bind_some, h.instant, hwall,
      resolve_of_year hshort hday]
  rw [parse, hzone, Option.bind_eq_bind, Option.bind_some, Option.getD_some, if_neg h.along.1,
    if_neg h.along.2.1, if_neg h.along.2.2, halong]
  cases (zone.offsetsOf (shownSeconds pattern millis)).first? <;> rfl

/-- **The name of a zone is passed over.** A time that is written in UTC is read on the clock of
whatever zone is asked for, and on the device's own clock if none is. The result is the time that was
written, as far as the pattern shows it, just if the first reading on this clock is UTC. -/
theorem zone_name_is_passed_over (hname : name ∈ zoneNamed)
    (hpattern : constant? name = some pattern) (hdevice : device.IsShort)
    (hyear : 1970 ≤ localYear .utc millis ∧ localYear .utc millis ≤ 2069) :
    ∃ text truncated, format device millis pattern (some "UTC") = .text text ∧
      (∃ before, text = before ++ " UTC") ∧
      truncated.toInt = shownSeconds pattern millis * 1000 ∧
      ∀ zoneName zone, zone? device zoneName = some zone →
        parse device text (some pattern) zoneName =
          ((zone.offsetsOf (shownSeconds pattern millis)).first?.bind fun offset =>
            Word.ofInt? ((shownSeconds pattern millis - offset) * 1000)) ∧
        (parse device text (some pattern) zoneName = some truncated ↔
          (zone.offsetsOf (shownSeconds pattern millis)).first? = some 0) := by
  have hrange : 0 ≤ localYear .utc millis ∧ localYear .utc millis < 10000 := by omega
  obtain ⟨ps, hshows⟩ := exists_showsUnzoned hname hpattern
  obtain ⟨before, hformat, hclues⟩ := format_showsUnzoned device hshows hrange
  obtain ⟨truncated, htruncated⟩ := exists_truncated pattern (toInt_nonneg_of_year hyear.1)
  refine ⟨_, truncated, hformat, ⟨String.ofList before, String.ofList_append⟩, htruncated,
    fun zoneName zone hzone => ?_⟩
  have hparse := parse_showsUnzoned hshows hyear hclues (isShort_of_zone? hdevice hzone) hzone
  refine ⟨hparse, ?_⟩
  rw [hparse]
  cases (zone.offsetsOf (shownSeconds pattern millis)).first? with
  | none => simp
  | some offset =>
      rw [Option.bind_some, Word.ofInt?_eq_some_iff, htruncated, Option.some.injEq]
      omega

/-- An afternoon in UTC becomes an evening when its text is read on a clock five hours behind. -/
theorem afternoon_is_read_late :
    format (.seasonal Seasons.eastern) 1136214245123 "%a, %d %b %Y %H:%M:%S %Z" (some "UTC") =
        .text "Mon, 02 Jan 2006 15:04:05 UTC" ∧
      parse (.seasonal Seasons.eastern) "Mon, 02 Jan 2006 15:04:05 UTC"
        (some "%a, %d %b %Y %H:%M:%S %Z") none = some 1136232245000 ∧
      parse (.seasonal Seasons.eastern) "Mon, 02 Jan 2006 15:04:05 UTC"
        (some "%a, %d %b %Y %H:%M:%S %Z") (some "UTC") = some 1136214245000 := by
  have hname : "RFC1123" ∈ zoneNamed := by decide
  have hdevice : (Zone.seasonal Seasons.eastern).IsShort := by decide
  have hyear : 1970 ≤ localYear .utc 1136214245123 ∧ localYear .utc 1136214245123 ≤ 2069 := by
    decide +kernel
  obtain ⟨text, truncated, hformat, -, htruncated, hread⟩ :=
    zone_name_is_passed_over hname rfl hdevice hyear
  have hwritten : format (.seasonal Seasons.eastern) 1136214245123 "%a, %d %b %Y %H:%M:%S %Z"
      (some "UTC") = .text "Mon, 02 Jan 2006 15:04:05 UTC" := by rfl
  obtain rfl := Value.text.inj (hformat.symm.trans hwritten)
  refine ⟨hwritten, ((hread none _ rfl).1).trans ?_, ?_⟩
  · decide +kernel
  · obtain rfl : truncated = 1136214245000 :=
      Int64.toInt_inj.1 (htruncated.trans (by decide +kernel))
    exact (hread (some "UTC") .utc rfl).2.2 rfl

end Condition.DateText

end Targeting
