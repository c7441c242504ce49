/-
# Dates that are read along their own pattern

A date is written and read along the same pattern, piece by piece. Most pieces are read back
whatever follows them: a number in all its places ends where it has to, and a name is known by its
letters. A blank is read as any blanks, so what follows it must not start with one, and the name of
a zone is passed over up to a blank, so nothing may follow it but the end. In a pattern of such
pieces every piece tells what the clock showed, and the name of the zone tells nothing.
-/

import Targeting.Proofs.Calendar.Timestamp

namespace Targeting.Calendar

open Digits (padded)

/-! ## Plain patterns -/

/-- Numbers of fixed width. -/
def Field.plain : List Field :=
  [.year, .yearOfCentury, .month, .day, .hour, .minute, .second]

/-- Places of a number of fixed width. -/
def Field.places : Field → Nat
  | .year => 4
  | _ => 2

theorem Field.places_bounds (field : Field) : 0 < field.places ∧ field.places ≤ 18 := by
  cases field <;> decide

/-- A number of fixed width that a wall time shows. -/
def Field.value (w : WallTime) : Field → Nat
  | .year => w.date.year.natAbs
  | .yearOfCentury => (w.date.year % 100).toNat
  | .month => w.date.month
  | .day => w.date.day
  | .hour => w.hour
  | .minute => w.minute
  | .second => w.second
  | _ => 0

/-- Pieces that start with no blank and are read back whatever follows. -/
def Piece.isSolid : Piece → Bool
  | .literal (first :: _) => !Blank.isUnicode first
  | .number field .zero => Field.plain.contains field
  | .monthName _ | .weekdayName _ => true
  | _ => false

/-- Patterns in which each piece is read back before what follows it. -/
def Pattern.isPlain : List Piece → Bool
  | [] => true
  | [.zoneName] => true
  | .space text :: next :: rest =>
    text.all Blank.isUnicode && (next.isSolid || next = .zoneName) && isPlain (next :: rest)
  | p :: rest => p.isSolid && isPlain rest

/-! ## What pieces tell -/

/-- Clues that a wall time bears out. -/
structure Clues.Of (c : Clues) (w : WallTime) : Prop where
  year : ∀ year ∈ c.year, year = w.date.year
  yearOfCentury : ∀ year ∈ c.yearOfCentury, year = w.date.year % 100
  month : ∀ month ∈ c.month, month = w.date.month
  day : ∀ day ∈ c.day, day = w.date.day
  weekday : ∀ day ∈ c.weekday, day = w.date.weekday
  afternoon : ∀ afternoon ∈ c.afternoon, afternoon = decide (12 ≤ w.hour)
  hourOfHalf : ∀ hour ∈ c.hourOfHalf, hour = w.hour % 12
  minute : ∀ minute ∈ c.minute, minute = w.minute
  second : ∀ second ∈ c.second, second = w.second

theorem Clues.of_empty (w : WallTime) : Clues.Of {} w := by
  constructor <;> nofun

namespace Read

/-- The clues after a number. -/
def tellNumber (w : WallTime) (c : Clues) : Field → Clues
  | .year => { c with year := some w.date.year }
  | .yearOfCentury => { c with yearOfCentury := some (w.date.year % 100) }
  | .month => { c with month := some w.date.month }
  | .day => { c with day := some w.date.day }
  | .hour => { c with afternoon := some (decide (12 ≤ w.hour)), hourOfHalf := some (w.hour % 12) }
  | .minute => { c with minute := some w.minute }
  | .second => { c with second := some w.second }
  | _ => c

/-- The clues after a piece that shows a wall time. -/
def tell (w : WallTime) (c : Clues) : Piece → Clues
  | .number field _ => tellNumber w c field
  | .monthName _ => { c with month := some w.date.month }
  | .weekdayName _ => { c with weekday := some w.date.weekday }
  | _ => c

variable {w : WallTime} {c : Clues}

theorem tellNumber_of (h : c.Of w) (field : Field) : (tellNumber w c field).Of w := by
  have hsome {α : Type} (value : α) : ∀ v ∈ some value, v = value :=
    fun v hv => (Option.some.inj hv).symm
  cases field
  case year => exact { h with year := hsome _ }
  case yearOfCentury => exact { h with yearOfCentury := hsome _ }
  case month => exact { h with month := hsome _ }
  case day => exact { h with day := hsome _ }
  case hour => exact { h with afternoon := hsome _, hourOfHalf := hsome _ }
  case minute => exact { h with minute := hsome _ }
  case second => exact { h with second := hsome _ }
  all_goals exact h

theorem tell_of (h : c.Of w) (p : Piece) : (tell w c p).Of w := by
  cases p with
  | number field _ => exact tellNumber_of h field
  | monthName _ => exact tellNumber_of h .month
  | weekdayName _ => exact { h with weekday := fun v hv => (Option.some.inj hv).symm }
  | _ => exact h

/-! ## Single pieces -/

theorem agree_eq {α : Type} [DecidableEq α] {old : Option α} {new : α}
    (h : ∀ value ∈ old, value = new) : agree old new = some (some new) := by
  cases old with
  | none => rfl
  | some value => rw [h value rfl, agree, if_pos rfl]

/-- A text that starts with no blank. -/
def StartsSolid (text : List Char) : Prop :=
  ∃ first rest, text = first :: rest ∧ Blank.isUnicode first = false

theorem StartsSolid.append {text : List Char} (h : StartsSolid text) (rest : List Char) :
    StartsSolid (text ++ rest) := by
  obtain ⟨first, more, rfl, hfirst⟩ := h
  exact ⟨first, more ++ rest, rfl, hfirst⟩

theorem trimStart_of_startsSolid {text : List Char} (h : StartsSolid text) :
    Blank.trimStart text = text := by
  obtain ⟨first, rest, rfl, hfirst⟩ := h
  exact List.dropWhile_cons_of_neg (by simp [hfirst])

/-- A name without blanks. -/
def IsWord (name : List Char) : Prop :=
  name ≠ [] ∧ ∀ c ∈ name, Blank.isUnicode c = false

theorem IsWord.startsSolid {name : List Char} (h : IsWord name) : StartsSolid name := by
  obtain ⟨first, rest, hname⟩ := List.exists_cons_of_ne_nil h.1
  exact ⟨first, rest, hname, h.2 first (hname ▸ List.mem_cons_self)⟩

theorem isUnicode_of_isDigit {c : Char} (h : c.isDigit) : Blank.isUnicode c = false := by
  have hbounds : 48 ≤ c.toNat ∧ c.toNat ≤ 57 := Char.isDigit_iff_toNat.1 h
  simp only [Blank.isUnicode, Bool.or_eq_false_iff, Bool.and_eq_false_iff, decide_eq_false_iff_not]
  omega

section Numbers

variable {field : Field} {places n : Nat}

theorem exists_padded (hplaces : 0 < places) (hn : n < 10 ^ places) :
    ∃ first rest, padded '0' places n = first :: rest ∧ first.isDigit := by
  have hne : padded '0' places n ≠ [] := by
    rw [← List.length_pos_iff, Digits.length_padded hplaces hn]
    exact hplaces
  obtain ⟨first, rest, htext⟩ := List.exists_cons_of_ne_nil hne
  exact ⟨first, rest, htext, Digits.isDigit_of_mem_padded (htext ▸ List.mem_cons_self)⟩

theorem startsSolid_padded (hplaces : 0 < places) (hn : n < 10 ^ places) :
    StartsSolid (padded '0' places n) := by
  obtain ⟨first, rest, htext, hdigit⟩ := exists_padded hplaces hn
  exact ⟨first, rest, htext, isUnicode_of_isDigit hdigit⟩

/-- A number in all its places is read whatever follows. -/
theorem number_padded (hwidth : width field = some places) (hplaces : 0 < places)
    (hshort : places ≤ 18) (hn : n < 10 ^ places) (rest : List Char) :
    number field (padded '0' places n ++ rest) = some ((n : Int), rest) := by
  have hread : digits 1 (some places) (padded '0' places n ++ rest) = some ((n : Int), rest) :=
    digits_padded hplaces hn hplaces (Nat.le_refl _) hshort (.inl rfl)
  obtain ⟨first, more, htext, hdigit⟩ := exists_padded hplaces hn
  rw [number, trimStart_of_startsSolid ((startsSolid_padded hplaces hn).append rest), hwidth, hread]
  -- A year may have a sign, but a digit is none.
  rw [htext, List.cons_append]
  split
  case isFalse => rfl
  case isTrue =>
    split
    case h_1 hsign =>
      cases hsign
      cases hdigit
    case h_2 hsign =>
      cases hsign
      cases hdigit
    case h_3 => rfl

/-- The places of a number of fixed width are exactly as many as are read. -/
theorem width_of_plain : ∀ field ∈ Field.plain, width field = some field.places := by
  decide

end Numbers

section Shown

variable (hyear : 0 ≤ w.date.year ∧ w.date.year < 10000) (hnanos : w.nanos < 1000000000)

include hyear hnanos

theorem value_lt {field : Field} (h : field ∈ Field.plain) :
    field.value w < 10 ^ field.places := by
  obtain ⟨-, hmonth, -, hday⟩ := w.date.exists_civil
  have hlength := daysInMonth_bounds w.date.year w.date.month
  obtain ⟨hhour, hminute, hsecond, -⟩ := WallTime.shown_eq hnanos
  simp only [Field.plain, List.mem_cons, List.not_mem_nil, or_false] at h
  obtain rfl | rfl | rfl | rfl | rfl | rfl | rfl := h <;>
    simp only [Field.value, Field.places] <;> omega

/-- A number of fixed width agrees with what is known. -/
theorem setNumber_value (h : c.Of w) {field : Field} (hfield : field ∈ Field.plain) :
    setNumber c field (field.value w) = some (tellNumber w c field) := by
  obtain ⟨hmonth, hmonth', hday, hday'⟩ := w.date.exists_civil
  have hlength := daysInMonth_bounds w.date.year w.date.month
  obtain ⟨hhour, hminute, hsecond, -⟩ := WallTime.shown_eq hnanos
  simp only [Field.plain, List.mem_cons, List.not_mem_nil, or_false] at hfield
  obtain rfl | rfl | rfl | rfl | rfl | rfl | rfl := hfield
  · have hvalue : (w.date.year.natAbs : Int) = w.date.year := Int.natAbs_of_nonneg hyear.1
    have hrange : yearRange w.date.year = some w.date.year := if_pos (by omega)
    simp [setNumber, tellNumber, Field.value, hvalue, hrange, agree_eq h.year]
  · have hvalue : ((w.date.year % 100).toNat : Int) = w.date.year % 100 := by omega
    have hrange : within 0 99 ((w.date.year % 100).toNat : Int) = some (w.date.year % 100).toNat :=
      within_natCast (by omega)
    rw [hvalue] at hrange
    simp [setNumber, tellNumber, Field.value, hvalue, hrange, agree_eq h.yearOfCentury]
  · have hrange : within 1 12 (w.date.month : Int) = some w.date.month :=
      within_natCast ⟨hmonth, hmonth'⟩
    simp [setNumber, tellNumber, Field.value, hrange, agree_eq h.month]
  · have hrange : within 1 31 (w.date.day : Int) = some w.date.day := within_natCast (by omega)
    simp [setNumber, tellNumber, Field.value, hrange, agree_eq h.day]
  · have hrange : within 0 23 (w.hour : Int) = some w.hour := within_natCast (by omega)
    simp [setNumber, setHour, tellNumber, Field.value, hrange, agree_eq h.afternoon,
      agree_eq h.hourOfHalf]
  · have hrange : within 0 59 (w.minute : Int) = some w.minute := within_natCast (by omega)
    simp [setNumber, tellNumber, Field.value, hrange, agree_eq h.minute]
  · have hrange : within 0 60 (w.second : Int) = some w.second := within_natCast (by omega)
    simp [setNumber, tellNumber, Field.value, hrange, agree_eq h.second]

end Shown

/-! ## Names -/

/-- A name is known by its first three letters, and a long one is read to its end. -/
theorem name_monthName {month : Nat} (hmonth : 1 ≤ month ∧ month ≤ 12) (long : Bool)
    (rest : List Char) :
    name monthNames long ((if long then (monthName month).toList
      else (monthName month).toList.take 3) ++ rest) = some (month - 1, rest) := by
  obtain ⟨hfrom, huntil⟩ := hmonth
  interval_cases month <;> cases long <;> rfl

theorem name_weekday (day : Weekday) (long : Bool) (rest : List Char) :
    name (Weekday.all.map Weekday.name) long ((if long then day.name else day.shortName).toList ++
      rest) = some (day.fromSunday, rest) := by
  cases day <;> cases long <;> rfl

theorem startsSolid_monthName {month : Nat} (hmonth : 1 ≤ month ∧ month ≤ 12) (long : Bool) :
    StartsSolid (if long then (monthName month).toList
      else (monthName month).toList.take 3) := by
  obtain ⟨hfrom, huntil⟩ := hmonth
  interval_cases month <;> cases long <;> exact ⟨_, _, rfl, by decide⟩

theorem startsSolid_weekday (day : Weekday) (long : Bool) :
    StartsSolid (if long then day.name else day.shortName).toList := by
  cases day <;> cases long <;> exact ⟨_, _, rfl, by decide⟩

/-! ## Runs of pieces -/

/-- A text of a piece that starts with no blank and tells, whatever follows it, what the clock
showed. -/
structure Rereads (r : Reading) (p : Piece) (text : List Char) : Prop where
  written : Print.piece r p = some text
  starts : StartsSolid text
  read : ∀ {c : Clues}, c.Of r.wall → ∀ rest,
    piece c p (text ++ rest) = some (tell r.wall c p, rest)

variable {r : Reading}

theorem rereads_monthName (long : Bool) : ∃ text, Rereads r (.monthName long) text := by
  obtain ⟨hfrom, huntil, -⟩ := r.wall.date.exists_civil
  refine ⟨_, rfl, startsSolid_monthName ⟨hfrom, huntil⟩ long, fun hc rest => ?_⟩
  rw [piece, name_monthName ⟨hfrom, huntil⟩]
  simp [tell, Nat.sub_add_cancel hfrom, agree_eq hc.month]

theorem rereads_weekdayName (long : Bool) : ∃ text, Rereads r (.weekdayName long) text := by
  refine ⟨_, rfl, startsSolid_weekday _ long, fun hc rest => ?_⟩
  rw [piece, name_weekday]
  simp [tell, Weekday.ofSunday_fromSunday, agree_eq hc.weekday]

section Runs

variable (hyear : 0 ≤ r.wall.date.year ∧ r.wall.date.year < 10000)
  (hnanos : r.wall.nanos < 1000000000)

include hyear hnanos

theorem number_eq_padded {field : Field} (h : field ∈ Field.plain) :
    Print.number r field .zero = padded '0' field.places (field.value r.wall) := by
  have hlt := value_lt hyear hnanos h
  simp only [Field.plain, List.mem_cons, List.not_mem_nil, or_false] at h
  obtain rfl | rfl | rfl | rfl | rfl | rfl | rfl := h
  · exact Print.year_zero hyear
  all_goals exact Print.twoDigits_zero hlt

theorem rereads_number {field : Field} (h : field ∈ Field.plain) :
    Rereads r (.number field .zero) (padded '0' field.places (field.value r.wall)) where
  written := congrArg some (number_eq_padded hyear hnanos h)
  starts := startsSolid_padded field.places_bounds.1 (value_lt hyear hnanos h)
  read hc rest := by
    rw [piece, numberPiece, number_padded (width_of_plain field h) field.places_bounds.1
      field.places_bounds.2 (value_lt hyear hnanos h)]
    simp [setNumber_value hyear hnanos hc h, tell]

theorem exists_rereads {p : Piece} (hp : p.isSolid) : ∃ text, Rereads r p text := by
  unfold Piece.isSolid at hp
  split at hp
  case h_1 first more =>
    refine ⟨first :: more, rfl, ⟨first, more, rfl, by simpa using hp⟩, fun _ rest => ?_⟩
    rw [piece, List.take_left, if_pos rfl, List.drop_left]
    rfl
  case h_2 field => exact ⟨_, rereads_number hyear hnanos (List.contains_iff_mem.1 hp)⟩
  case h_3 long => exact rereads_monthName long
  case h_4 long => exact rereads_weekdayName long
  case h_5 => cases hp

theorem startsSolid_pieces {next : Piece} {rest : List Piece} {text : List Char}
    (hname : IsWord r.zoneName) (h : next.isSolid ∨ next = .zoneName)
    (hwrite : Print.pieces r (next :: rest) = some text) : StartsSolid text := by
  obtain ⟨first, hfirst, hmore⟩ := Option.bind_eq_some_iff.1 hwrite
  obtain ⟨more, -, htext⟩ := Option.bind_eq_some_iff.1 hmore
  obtain rfl : first ++ more = text := Option.some.inj htext
  refine StartsSolid.append ?_ more
  obtain hsolid | rfl := h
  · obtain ⟨text, hrereads⟩ := exists_rereads hyear hnanos hsolid
    obtain rfl : text = first := Option.some.inj (hrereads.written.symm.trans hfirst)
    exact hrereads.starts
  · obtain rfl : r.zoneName = first := Option.some.inj hfirst
    exact hname.startsSolid

/-- **Along a plain pattern each piece tells what the clock showed.** -/
theorem exists_pieces {ps : List Piece} (hplain : Pattern.isPlain ps) (hname : IsWord r.zoneName) :
    ∃ text, Print.pieces r ps = some text ∧ ∀ c : Clues, c.Of r.wall →
      pieces c ps text = some (ps.foldl (tell r.wall) c) := by
  -- The clues that are known before a piece are true of the clock, so the piece only repeats or
  -- adds to them.
  induction ps using Pattern.isPlain.induct with
  | case1 => exact ⟨[], rfl, fun c _ => rfl⟩
  | case2 =>
      refine ⟨r.zoneName ++ [], rfl, fun c _ => ?_⟩
      rw [pieces, piece, List.dropWhile_append_of_pos fun c hc => by simp [hname.2 c hc]]
      rfl
  | case3 blanks next rest ih =>
      rw [Pattern.isPlain, Bool.and_eq_true, Bool.and_eq_true, Bool.or_eq_true,
        decide_eq_true_iff] at hplain
      obtain ⟨⟨hblanks, hnext⟩, hrest⟩ := hplain
      obtain ⟨text, hwrite, hread⟩ := ih hrest
      refine ⟨blanks ++ text, ?_, fun c hc => ?_⟩
      · rw [Print.pieces, hwrite]
        rfl
      · have htrim : Blank.trimStart (blanks ++ text) = text := by
          rw [Blank.trimStart, List.dropWhile_append_of_pos (List.all_eq_true.1 hblanks)]
          exact trimStart_of_startsSolid (startsSolid_pieces hyear hnanos hname hnext hwrite)
        rw [pieces, piece, htrim]
        exact hread c hc
  | case4 p rest hlast hspace ih =>
      rw [Pattern.isPlain.eq_4 p rest hlast hspace, Bool.and_eq_true] at hplain
      obtain ⟨more, hwrite, hread⟩ := ih hplain.2
      obtain ⟨text, hrereads⟩ := exists_rereads hyear hnanos hplain.1
      refine ⟨text ++ more, ?_, fun c hc => ?_⟩
      · rw [Print.pieces, hrereads.written, hwrite]
        rfl
      · rw [pieces, hrereads.read hc]
        exact hread _ (tell_of hc p)

end Runs

end Read

theorem Print.pieces_append (r : Reading) (ps later : List Piece) :
    pieces r (ps ++ later) =
      (pieces r ps).bind fun text => (pieces r later).map (text ++ ·) := by
  induction ps with
  | nil => simp [pieces]
  | cons p ps ih =>
      rw [List.cons_append, pieces, ih, pieces]
      cases piece r p with
      | none => rfl
      | some text => cases pieces r ps <;> cases pieces r later <;> simp

/-! ## The wall time -/

/-- The whole minutes of a wall time. -/
theorem WallTime.ofDate_minute (w : WallTime) :
    ofDate w.date (w.hour * 3600 + w.minute * 60) 0 = ⟨w.seconds / 60 * 60, 0⟩ := by
  obtain ⟨hseconds, hday⟩ := w.seconds_eq
  rw [ofDate, hour, minute]
  refine congrArg (WallTime.mk · 0) ?_
  simp only [secondsPerDay]
  omega

/-- The whole seconds of a wall time that is no leap second. -/
theorem WallTime.ofDate_second {w : WallTime} (hnanos : w.nanos < 1000000000) :
    ofDate w.date (w.hour * 3600 + w.minute * 60 + w.second) 0 = ⟨w.seconds, 0⟩ := by
  obtain ⟨-, -, -, hwall⟩ := shown_eq hnanos
  exact congrArg (WallTime.mk · 0) (congrArg WallTime.seconds hwall)

namespace Clues

/-- What is known from a month, a day, an hour and a minute, and maybe from a year, its last two
digits, a weekday and a second. -/
def shown (w : WallTime) (year yearOfCentury : Option Int) (weekday : Option Weekday)
    (second : Option Nat) : Clues :=
  { year, yearOfCentury, weekday, second
    month := some w.date.month
    day := some w.date.day
    afternoon := some (decide (12 ≤ w.hour))
    hourOfHalf := some (w.hour % 12)
    minute := some w.minute }

variable {w : WallTime} {year yearOfCentury : Option Int} {weekday : Option Weekday}
  {second : Option Nat}

/-- Two digits are enough for a hundred years. -/
theorem fullYear_of_century {year : Int} (h : 1970 ≤ year ∧ year ≤ 2069) :
    fullYear none none (some (year % 100)) = .ok (some year) := by
  rw [fullYear]
  refine congrArg (fun year => Except.ok (some year)) ?_
  split <;> omega

theorem date_shown (hyear : fullYear year none yearOfCentury = .ok (some w.date.year))
    (hrange : 0 ≤ w.date.year ∧ w.date.year < 10000)
    (hweekday : ∀ day ∈ weekday, day = w.date.weekday) :
    (shown w year yearOfCentury weekday second).date = .ok w.date := by
  have hdate : Date.ofCivil? w.date.year w.date.month w.date.day = some w.date :=
    Date.ofCivil?_civil ⟨Int.le_trans (by decide) hrange.1,
      Int.le_trans (Int.le_of_lt hrange.2) (by decide)⟩
  have hagrees : matches? weekday w.date.weekday := by
    cases weekday with
    | none => rfl
    | some day => rw [hweekday day rfl, matches?, decide_eq_true rfl]
  have hiso : fullYear none none none = .ok none := rfl
  have hnone {α : Type} [DecidableEq α] (value : α) : matches? none value = true := rfl
  simp [date, shown, hyear, hiso, hdate, agreesIsoWeek, agreesOrdinal, hagrees, hnone,
    matchesPart, bind, Except.bind, pure, Except.pure]

theorem wall?_shown (hyear : fullYear year none yearOfCentury = .ok (some w.date.year))
    (hrange : 0 ≤ w.date.year ∧ w.date.year < 10000)
    (hweekday : ∀ day ∈ weekday, day = w.date.weekday) (hsecond : ∀ s ∈ second, s < 60) :
    (shown w year yearOfCentury weekday second).wall? 0 =
      some (.ofDate w.date (w.hour * 3600 + w.minute * 60 + second.getD 0) 0) := by
  have hhour : w.hour < 24 := by
    obtain ⟨-, hday⟩ := w.seconds_eq
    rw [WallTime.hour]
    omega
  have hhalf : (if decide (12 ≤ w.hour) then 12 else 0) + w.hour % 12 = w.hour := by
    simp only [decide_eq_true_eq]
    split <;> omega
  have htime : (shown w year yearOfCentury weekday second).timeOfDay =
      .ok (w.hour * 3600 + w.minute * 60 + second.getD 0, 0) := by
    simp only [timeOfDay, shown, hhalf]
    cases second with
    | none => simp only [Option.getD_none, Nat.add_zero]
    | some second => exact if_neg (Nat.ne_of_lt (hsecond second rfl))
  rw [wall?, date_shown hyear hrange hweekday, htime]
  simp only [checkedWall, shown]

theorem wall?_shown_minute (hyear : fullYear year none yearOfCentury = .ok (some w.date.year))
    (hrange : 0 ≤ w.date.year ∧ w.date.year < 10000)
    (hweekday : ∀ day ∈ weekday, day = w.date.weekday) :
    (shown w year yearOfCentury weekday none).wall? 0 = some ⟨w.seconds / 60 * 60, 0⟩ := by
  have hsecond : ∀ s ∈ (none : Option Nat), s < 60 := nofun
  rw [wall?_shown hyear hrange hweekday hsecond, Option.getD_none, Nat.add_zero,
    WallTime.ofDate_minute]

theorem wall?_shown_second (hyear : fullYear year none yearOfCentury = .ok (some w.date.year))
    (hrange : 0 ≤ w.date.year ∧ w.date.year < 10000)
    (hweekday : ∀ day ∈ weekday, day = w.date.weekday) (hnanos : w.nanos < 1000000000) :
    (shown w year yearOfCentury weekday (some w.second)).wall? 0 = some ⟨w.seconds, 0⟩ := by
  obtain ⟨-, -, hsecond, -⟩ := WallTime.shown_eq hnanos
  rw [wall?_shown hyear hrange hweekday fun s hs => Option.some.inj hs ▸ hsecond,
    Option.getD_some, WallTime.ofDate_second hnanos]

end Clues

end Targeting.Calendar
