/-
# Asking for what was recorded

A condition can ask whether a property ever had the value that it has. The value reaches the history
twice, first as a sample and then as an argument of the question, and a condition carries it
there as a value of its own. Values of conditions are as fine as those of properties but for times,
which lose what is less than a millisecond, while the history keeps microseconds and tells them
apart. So the question is answered with yes for every value that was recorded unless it is a time
between two milliseconds. For such a time the question is about the millisecond before it.
-/

import Targeting.Client.Environment
import Targeting.Condition.Guard
import Targeting.Proofs.Client.Calls
import Targeting.Proofs.Condition.Printing
import Targeting.Proofs.History.Columns
import Targeting.Proofs.History.Sampling

namespace Targeting

open Calendar (Instant)
open Condition (Expr Environment IsName Value)

/-! ## The condition -/

namespace Condition

open Lexer

/-- The condition that a property ever had the value that it has. -/
def everAsNow (name : String) : String := "propertyEver('" ++ name ++ "', " ++ name ++ ")"

theorem toList_everAsNow (name : String) : (everAsNow name).toList =
    "propertyEver".toList ++ '(' :: '\'' :: (name.toList ++ '\'' :: ',' :: ' ' ::
      (name.toList ++ [')'])) := by
  change ("propertyEver('" ++ name ++ "', " ++ name ++ ")").toList = _
  simp

/-- A token may be a single character. -/
theorem ScansTo.mark {kind : TokenKind} {c : Char} {rest : List Char} {kinds : List TokenKind}
    (hblank : Blank.isAscii c = false) (hread : Lexer.lexeme c rest = .ok (kind, 0))
    (hrest : ScansTo rest kinds) : ScansTo (c :: rest) (kind :: kinds) :=
  @ScansTo.cons kind c [] rest kinds hblank hread hrest

/-- A word ends where a character follows that cannot go on with it. -/
theorem ScansTo.word {name : String} {next : Char} {rest : List Char} {kinds : List TokenKind}
    (hname : IsWord name.toList) (hnext : continuesWord next = false)
    (hrest : ScansTo (next :: rest) kinds) :
    ScansTo (name.toList ++ next :: rest) (.word name :: kinds) := by
  obtain ⟨c, tail, hcons, hblank⟩ := (Spells.name hname).exists_cons
  have hstop : ∀ d ∈ (next :: rest).head?, continuesWord d = false := by
    intro d hd
    obtain rfl : next = d := by simpa using hd
    exact hnext
  have hread := lexeme_word (hcons ▸ hname) hstop
  rw [← hcons, String.ofList_toList] at hread
  rw [hcons]
  exact .cons hblank hread hrest

/-- A word needs no escapes between quotes. -/
theorem IsWord.escaped {word : List Char} (hword : IsWord word) : Escaped '\'' word word := by
  obtain ⟨-, hall⟩ := hword
  induction word with
  | nil => exact .nil
  | cons c rest ih =>
      obtain ⟨hc, hrest⟩ := List.forall_mem_cons.1 hall
      refine .plain ?_ ?_ (ih hrest)
      · rintro rfl
        exact absurd hc (by decide)
      · rintro rfl
        exact absurd hc (by decide)

/-- A text ends with its quote, whatever follows. -/
theorem ScansTo.text {name : String} {rest : List Char} {kinds : List TokenKind}
    (hname : IsWord name.toList) (hrest : ScansTo rest kinds) :
    ScansTo ('\'' :: ((name.toList ++ ['\'']) ++ rest)) (.text name :: kinds) := by
  refine .cons rfl ?_ hrest
  have hread := lexeme_text (.inr rfl) hname.escaped rest
  simpa using hread

/-- The condition as tokens. -/
def everAsNowKinds (name : String) : List TokenKind :=
  .word "propertyEver" :: .leftParen :: ([.text name, .comma, .word name] ++ [.rightParen])

theorem everAsNow_scansTo {name : String} (hname : IsWord name.toList) :
    ScansTo (everAsNow name).toList (everAsNowKinds name ++ [.stop]) := by
  have hfunction : IsWord "propertyEver".toList := by decide
  have hgap : IsGap [' '] := by decide
  have hclose : ScansTo [')'] [.rightParen, .stop] := .mark rfl rfl scansTo_nil
  have hread : ScansTo (name.toList ++ [')']) _ := hclose.word hname rfl
  have hcomma : ScansTo (',' :: ' ' :: (name.toList ++ [')'])) _ :=
    .mark rfl rfl (hread.blanks hgap)
  have hopen : ScansTo ('(' :: _) _ := .mark rfl rfl (hcomma.text hname)
  have hall := hopen.word hfunction rfl
  rw [toList_everAsNow]
  simpa [everAsNowKinds] using hall

/-- The call of the function with the name as a text and as a property. -/
def callEverAsNow (name : String) : Expr := .call "propertyEver" [.text name, .ident name]

theorem parse_everAsNow {name : String} (hname : IsName name) :
    Expr.parse (everAsNow name) = .ok (callEverAsNow name) := by
  have hprintable : (callEverAsNow name).Printable := by
    refine .call (by decide) fun arg harg => ?_
    simp only [List.mem_cons, List.not_mem_nil, or_false] at harg
    obtain rfl | rfl := harg
    · exact .text name
    · exact .ident hname
  have htext : (Expr.text name).PrintedPart [.text name] := .alone True.intro (.atom (.text name))
  have hident : (Expr.ident name).PrintedPart [.word name] :=
    .alone True.intro (.atom (.ident hname))
  have hprinted : (callEverAsNow name).Printed (everAsNowKinds name) :=
    .call (.more htext (.last hident))
  obtain ⟨tokens, htokens, hkinds⟩ := everAsNow_scansTo hname.1 0
  obtain ⟨body, rest, rfl, hbody, hrest⟩ := List.map_eq_append_iff.1 hkinds
  obtain ⟨⟨_, offset⟩, rfl, rfl⟩ := List.map_eq_singleton_iff.1 hrest
  have hread := (readsBack_of_printable hprintable).whole Parser.maxDepth body [⟨.stop, offset⟩]
    (show 2 * 1 + 2 ≤ Parser.maxDepth by decide) (hbody ▸ hprinted) (by simp [Closes, closers])
  exact parse_of_expression htokens hread rfl

theorem compile_everAsNow {name : String} (hname : IsName name) :
    compile (everAsNow name) = .ok ⟨callEverAsNow name⟩ := by
  have hne : everAsNow name ≠ "" := by
    intro hempty
    have hlist := toList_everAsNow name
    rw [hempty] at hlist
    exact absurd hlist.symm (by simp)
  have hcheck : (callEverAsNow name).check Scope.catalog = .ok () := rfl
  have hoptimize : (callEverAsNow name).optimize = callEverAsNow name := rfl
  rw [compile, prepareTree, if_neg hne, parse_everAsNow hname]
  simp only [hcheck, hoptimize]
  rfl

/-- The condition reads the property and asks the function about its value. -/
theorem evaluate_everAsNow {σ : Type} {env : Environment σ} {name : String} {v : Value}
    {s s' : σ} (hname : IsName name) (hconstant : DateText.constant? name = none)
    (hread : env.property name s = (some v, s')) {answer : Bool}
    (hask : env.function "propertyEver" [.text name, v] s' = (.value (.bool answer), s')) :
    (ofSource (everAsNow name)).evaluate env s = (.ok answer, s') := by
  have hroot : ((callEverAsNow name).evaluate env).run s = (.ok (.bool answer), s') := by
    have hident : (readName env name).run s = (.ok v, s') := by
      rw [readName, hconstant]
      change askProperty env name s = _
      rw [askProperty, hread]
    have hsecond : (Expr.evaluateAll env [.ident name]).run s = (.ok [v], s') := by
      rw [Expr.evaluateAll, Expr.evaluate, Run.run_bind_of_ok hident]
      rfl
    have htext : ((Expr.text name).evaluate env).run s = (.ok (.text name), s) := by
      rw [Expr.evaluate]
      rfl
    have hargs : (Expr.evaluateAll env [.text name, .ident name]).run s =
        (.ok [.text name, v], s') := by
      rw [Expr.evaluateAll, Run.run_bind_of_ok htext, Run.run_bind_of_ok hsecond]
      rfl
    rw [callEverAsNow, Expr.evaluate, Run.run_bind_of_ok hargs]
    change askFunction env "propertyEver" [.text name, v] s' = _
    rw [askFunction, hask]
  have hprogram : (ofSource (everAsNow name)).program = .ok ⟨callEverAsNow name⟩ :=
    compile_everAsNow hname
  have heval : (ofSource (everAsNow name)).evaluate env s =
      Program.evaluate ⟨callEverAsNow name⟩ env s := by
    rw [evaluate, hprogram]
    rfl
  rw [heval, Program.evaluate, hroot]

end Condition

/-- The names of date patterns are not names of properties. -/
theorem Catalog.constant?_eq_none {name : String} (h : isDeclared name) :
    Condition.DateText.constant? name = none := by
  have hconstants : ∀ entry ∈ Condition.DateText.constants, isDeclared entry.1 = false := by
    decide +kernel
  refine List.lookup_eq_none_iff.2 fun entry hentry => bne_iff_ne.2 ?_
  rintro rfl
  rw [hconstants entry hentry] at h
  exact Bool.false_ne_true h

/-! ## Values that become arguments -/

/-- A value as a condition carries it: a time as the whole millisecond that it is in. -/
def PropertyValue.inMillis : PropertyValue → PropertyValue
  | .timestamp t => .timestamp ⟨t.millis * 1000⟩
  | v => v

/-- Times between two milliseconds are the only values that conditions do not carry as they are. -/
theorem PropertyValue.inMillis_eq_self {v : PropertyValue}
    (h : ∀ t, v = .timestamp t → 1000 ∣ t.micros) : v.inMillis = v := by
  cases v with
  | timestamp t =>
      exact congrArg (PropertyValue.timestamp ⟨·⟩) (Int.ediv_mul_cancel (h t rfl))
  | bool _ | int _ | float _ | text _ => rfl

theorem PropertyValue.sameAs_self {v : PropertyValue} (h : v.IsKept) : v.sameAs v := by
  cases v with
  | float x => exact Binary64.beq_self_of_isNaN_eq_false h
  | bool _ | int _ | text _ | timestamp _ => exact beq_self_eq_true _

/-- The millisecond that a time is in belongs to the calendar as the time does. -/
theorem Calendar.Instant.inRange_inMillis {t : Instant} (h : t.inRange) :
    (Instant.mk (t.millis * 1000)).inRange := by
  have hseconds : t.millis * 1000 / 1000000 = t.micros / 1000000 := by
    rw [millis]
    omega
  rw [inRange] at h ⊢
  rwa [hseconds]

/-- A value that a history lookup takes from a condition is the one that the condition carries. -/
theorem Condition.Value.toProperty?_ofProperty {v : PropertyValue} (h : v.IsKept) :
    (Value.ofProperty v).toProperty? = some v.inMillis := by
  cases v with
  | timestamp t =>
      have hbounds := Instant.micros_bounds_of_inRange h
      have hword : (Int64.ofInt t.millis).toInt = t.millis := by
        rw [Instant.millis]
        exact Int64.toInt_ofInt_of_le (by omega) (by omega)
      have hrange : Instant.ofMillis? t.millis = some ⟨t.millis * 1000⟩ := by
        rw [Instant.ofMillis?, Instant.ofMicros?, if_pos (Instant.inRange_inMillis h)]
      rw [ofProperty, toProperty?, hword, hrange]
      rfl
  | bool _ | int _ | float _ | text _ => rfl

/-! ## Values that were recorded -/

namespace Store

variable {s : Store} {x : Sample}

theorem everHad_of_isStarted (h : s.isStarted) (name : String) (v : PropertyValue) :
    s.everHad name v = .ok (s.ledger.everHad name v) := by
  rw [everHad, opened_of_isStarted h]
  rfl

/-- A property had the values that were recorded. -/
theorem everHad_of_mem (hmem : x.row ∈ s.ledger.samples) (hkept : x.value.IsKept) :
    s.ledger.everHad x.name x.value := by
  refine List.any_eq_true.2 ⟨x.row, List.mem_filter.2 ⟨hmem, beq_self_eq_true _⟩, ?_⟩
  exact (Cells.holds_ofValue hkept hkept).trans (PropertyValue.sameAs_self hkept)

/-- Recording once more what was recorded changes no answer about the values of the property. -/
theorem everHad_recordSample_of_mem (hmem : x.row ∈ s.ledger.samples) (sampling : Sampling)
    (now : Instant) (v : PropertyValue) :
    (s.recordSample x.name x.value sampling now).ledger.everHad x.name v =
      s.ledger.everHad x.name v := by
  let y : Sample := ⟨x.name, x.value, sampling, now⟩
  let fits : SampleRow → Bool := fun row => row.code == v.kind.code && row.cells.holds v
  -- The new row differs from the old one in how and when it was recorded, which no answer sees.
  have hbefore : fits y.row → s.ledger.everHad x.name v := fun hfits =>
    List.any_eq_true.2 ⟨x.row, List.mem_filter.2 ⟨hmem, beq_self_eq_true _⟩, hfits⟩
  have hledger := ledger_recordSample s y
  change (s.recordSample x.name x.value sampling now).ledger = _ at hledger
  rw [hledger, Operation.samples]
  split
  case isFalse => simp
  case isTrue =>
    have hadded : (([y].map Sample.row).filter fun row => row.name == x.name).any fits =
        fits y.row := by
      simp [y, Sample.row]
    rw [Ledger.everHad, Ledger.samplesNamed, List.filter_append, List.any_append]
    change (s.ledger.everHad x.name v || List.any _ fits) = _
    rw [hadded]
    cases hfits : fits y.row with
    | false => exact Bool.or_false _
    | true => rw [hbefore hfits, Bool.true_or]

end Store

/-! ## In a client -/

namespace Client

variable {μ : Type} {host : Host μ}

/-- Reading the value of a property leaves the history as it is. -/
theorem store_value (host : Host μ) (r : Registry) (start : Option Instant) (name : String)
    (s : Surroundings μ) :
    (r.value (answers host start) name s).2.1 = s.1 := by
  rw [Registry.value]
  split
  case h_1 => rfl
  case h_2 p _ =>
    cases p with
    | sessionStart => cases start <;> rfl
    | fixed _ | app _ | history _ _ => rfl

/-- A condition that reads a property may record the value once more. -/
theorem property_of_value {c : Client} {name : String} {v : PropertyValue} {s : Surroundings μ}
    (h : (c.registry.value (answers host c.sessionStart) name s).1 = some v) :
    ∃ s', (c.environment host).property name s = (some (.ofProperty v), s') ∧
      (s'.1 = s.1 ∨ ∃ now, s'.1 = s.1.recordSample name v .onUse now) := by
  have hstore := store_value host c.registry c.sessionStart name s
  rcases hvalue : c.registry.value (answers host c.sessionStart) name s with ⟨found, s₁⟩
  rw [hvalue] at h hstore
  dsimp only at h hstore
  subst h
  simp only [environment, hvalue]
  split
  case isTrue => exact ⟨_, rfl, .inr ⟨_, by rw [hstore]⟩⟩
  case isFalse => exact ⟨_, rfl, .inl hstore⟩

/-- The function asks history about the value that it is given. -/
theorem function_propertyEver {c : Client} {name : String} {value : Value} {v : PropertyValue}
    {s : Surroundings μ} (h : value.toProperty? = some v) :
    (c.environment host).function "propertyEver" [.text name, value] s =
      (storeReply .bool (s.1.everHad name v), s) := by
  have hfind : Condition.Builtin.find? "propertyEver" = some (.dynamic (.propertyEver false)) := by
    decide
  simp only [environment, hfind, dynamicReply, h]

/-- **What was recorded is found again from a condition.** In a client whose history has started,
let a property have a value that was recorded for it. Then the condition that it ever had the value
that it has is true, for a value of any kind that columns can keep, but a time has to be a whole
millisecond. If it is not, the condition tells whether the property ever had the millisecond that
the time is in. -/
theorem recorded_value_is_found {c : Client} {s : Surroundings μ} {name : String}
    {v : PropertyValue} (hname : IsName name) (hdeclared : Catalog.isDeclared name)
    (hstarted : s.1.isStarted) (hkept : v.IsKept)
    (hvalue : (c.registry.value (answers host c.sessionStart) name s).1 = some v)
    (hrecorded : ∃ x : Sample, x.name = name ∧ x.value = v ∧ x.row ∈ s.1.ledger.samples) :
    let found := ((Condition.ofSource (Condition.everAsNow name)).evaluate (c.environment host) s).1
    ((∀ t, v = .timestamp t → 1000 ∣ t.micros) → found = .ok true) ∧
      ∀ t, v = .timestamp t → ¬ 1000 ∣ t.micros →
        found = .ok (s.1.ledger.everHad name (.timestamp ⟨t.millis * 1000⟩)) := by
  intro found
  obtain ⟨x, rfl, rfl, hmem⟩ := hrecorded
  -- Reading comes first and may record the value once more, so the question meets another history.
  obtain ⟨s', hread, hstore⟩ := property_of_value hvalue
  have hever : s'.1.everHad x.name x.value.inMillis =
      .ok (s.1.ledger.everHad x.name x.value.inMillis) := by
    obtain hsame | ⟨now, hagain⟩ := hstore
    · rw [hsame, Store.everHad_of_isStarted hstarted]
    · have hstarted' : s'.1.isStarted := by
        rw [hagain]
        exact (Store.isStarted_recordSample s.1 ⟨x.name, x.value, .onUse, now⟩).trans hstarted
      rw [Store.everHad_of_isStarted hstarted', hagain, Store.everHad_recordSample_of_mem hmem]
  have hask : (c.environment host).function "propertyEver" [.text x.name, .ofProperty x.value] s' =
      (.value (.bool (s.1.ledger.everHad x.name x.value.inMillis)), s') := by
    rw [function_propertyEver (Value.toProperty?_ofProperty hkept), hever]
    rfl
  have hfound : found = .ok (s.1.ledger.everHad x.name x.value.inMillis) :=
    congrArg Prod.fst (Condition.evaluate_everAsNow hname (Catalog.constant?_eq_none hdeclared)
      hread hask)
  constructor
  · intro hmillis
    rw [hfound, PropertyValue.inMillis_eq_self hmillis, Store.everHad_of_mem hmem hkept]
  · intro t ht _
    rw [hfound, ht]
    rfl

/-- A client whose app has set a level and a time between two milliseconds. -/
def visited : World Unit :=
  [Call.setCustom "level" (.int 3), .setCustom "seen" (.timestamp ⟨1700000000123456⟩)].foldl
    (fun w call => call.run .quiet 0 w) ⟨running (.empty "app"), ()⟩

/-- The level is found again. The time is not, although the history has it. -/
theorem level_is_found :
    let answer := fun source => ((Condition.ofSource source).evaluate
      (visited.client.environment .quiet) (visited.client.store, ())).1
    answer "propertyEver('custom_level', custom_level)" = .ok true ∧
      answer "propertyEver('custom_seen', custom_seen)" = .ok false ∧
      visited.client.store.everHad "custom_seen" (.timestamp ⟨1700000000123456⟩) = .ok true := by
  intro answer
  have hlevel : Condition.everAsNow "custom_level" =
      "propertyEver('custom_level', custom_level)" := by decide
  have hseen : Condition.everAsNow "custom_seen" =
      "propertyEver('custom_seen', custom_seen)" := by decide
  refine ⟨?_, ?_, by decide +kernel⟩
  · have hfound := @recorded_value_is_found Unit .quiet visited.client
      (visited.client.store, ()) "custom_level" (.int 3)
      (by decide) (by decide +kernel) (by decide +kernel) trivial (by decide +kernel)
      ⟨⟨"custom_level", .int 3, .onCustomSet, ⟨0⟩⟩, rfl, rfl, by decide +kernel⟩
    rw [hlevel] at hfound
    exact hfound.1 nofun
  · have hfound := @recorded_value_is_found Unit .quiet visited.client
      (visited.client.store, ()) "custom_seen" (.timestamp ⟨1700000000123456⟩)
      (by decide) (by decide +kernel) (by decide +kernel) (by decide) (by decide +kernel)
      ⟨⟨"custom_seen", .timestamp ⟨1700000000123456⟩, .onCustomSet, ⟨0⟩⟩, rfl, rfl,
        by decide +kernel⟩
    rw [hseen] at hfound
    refine (hfound.2 _ rfl (by decide)).trans ?_
    decide +kernel

end Client

end Targeting
