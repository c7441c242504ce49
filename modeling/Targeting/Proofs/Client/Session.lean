/-
# Sessions

Only the app's return to the foreground begins a session, and only if the one that the client knows
of is over. The client records the beginning, lets the triggers that listen to it do what they do,
and notes the time if all of them succeed. So the next session keeps its distance from one whose
beginning was a success. If the beginning fails it is recorded all the same, but the client knows of
no new session, and the next return to the foreground may begin one at once.
-/

import Targeting.Proofs.Client.Movement

namespace Targeting

open Calendar (Instant)
open World (Calm)

variable {μ : Type}

namespace Client

variable {clock : μ → Instant} {host : Host μ} {steps : Nat} {w w' : World μ}

/-- What becomes of the beginning of a session, if the app's return to the foreground begins one. -/
def beginning (host : Host μ) : Nat → World μ → Option Outcome
  | 0, _ => none
  | steps + 1, w => ((process host steps (.builtIn .sessionStart)).run (now host w).2).1

/-- The app's return to the foreground begins a session: it is recorded, at a distance from the one
that the client knew of; the client knows of the new one if and only if its beginning succeeds. -/
structure Begins (clock : μ → Instant) (host : Host μ) (steps : Nat) (row : EventRow)
    (w w' : World μ) : Prop where
  clock_le : clock w.memory ≤ row.stamp
  le_clock : row.stamp ≤ clock w'.memory
  sessions_eq : w'.sessions = w.sessions ++ [row]
  gap_eq : w'.client.sessionGap = w.client.sessionGap
  apart : ∀ start, w.client.sessionStart = some start →
    w.client.sessionGap ≤ row.stamp.micros - start.micros
  success : beginning host steps w = some (.ok ()) →
    ∃ start, w'.client.sessionStart = some start ∧ row.stamp ≤ start ∧ start ≤ clock w'.memory
  failure : beginning host steps w ≠ some (.ok ()) →
    w'.client.sessionStart = w.client.sessionStart

/-- An event that begins a session is recorded. -/
structure Notes (clock : μ → Instant) (row : EventRow) (w w' : World μ) : Prop where
  clock_le : clock w.memory ≤ row.stamp
  le_clock : row.stamp ≤ clock w'.memory
  sessions_eq : w'.sessions = w.sessions ++ [row]
  start_eq : w'.client.sessionStart = w.client.sessionStart
  gap_eq : w'.client.sessionGap = w.client.sessionGap

variable {row : EventRow}

theorem Notes.trans_calm {w₁ : World μ} (h : Notes clock row w w₁) (hcalm : Calm clock w₁ w') :
    Notes clock row w w' where
  clock_le := h.clock_le
  le_clock := Instant.le_trans h.le_clock hcalm.clock_le
  sessions_eq := hcalm.sessions_eq.trans h.sessions_eq
  start_eq := hcalm.start_eq.trans h.start_eq
  gap_eq := hcalm.gap_eq.trans h.gap_eq

theorem Begins.trans_calm {w₁ : World μ} (h : Begins clock host steps row w w₁)
    (hcalm : Calm clock w₁ w') : Begins clock host steps row w w' where
  clock_le := h.clock_le
  le_clock := Instant.le_trans h.le_clock hcalm.clock_le
  sessions_eq := hcalm.sessions_eq.trans h.sessions_eq
  gap_eq := hcalm.gap_eq.trans h.gap_eq
  apart := h.apart
  success hsuccess := by
    obtain ⟨start, hstart, hrow, hclock⟩ := h.success hsuccess
    exact ⟨start, hcalm.start_eq.trans hstart, hrow, Instant.le_trans hclock hcalm.clock_le⟩
  failure hfailure := hcalm.start_eq.trans (h.failure hfailure)

/-- A session that begins is at a distance from the one that the client knew of. -/
theorem le_sub_of_isInSession {t : Instant} (hsession : ¬ w.client.isInSession t) {start : Instant}
    (hstart : w.client.sessionStart = some start) (hrow : t ≤ row.stamp) :
    w.client.sessionGap ≤ row.stamp.micros - start.micros := by
  rw [isInSession, hstart] at hsession
  have hgap : w.client.sessionGap ≤ t.micros - start.micros := by simpa using hsession
  have hmicros : t.micros ≤ row.stamp.micros := hrow
  omega

section Ascending

variable (hclock : host.Ascends clock)

include hclock

theorem record_notes (hstarted : w.client.store.isStarted) :
    Notes clock ⟨.builtIn .sessionStart, (host.now w.memory).1⟩ w
      (record host (.builtIn .sessionStart) w).2 where
  clock_le := hclock.le_now w.memory
  le_clock := hclock.now_le w.memory
  sessions_eq := by
    change (w.client.store.recordEvent _ _).2.ledger.eventsNamed _ = _
    rw [Store.recordEvent_of_isStarted hstarted]
    refine (Ledger.eventsNamed_addEvent ..).trans ?_
    rw [if_pos (show (Event.builtIn .sessionStart).name = BuiltInEvent.sessionStart.name from rfl)]
    rfl
  start_eq := rfl
  gap_eq := rfl

theorem record_calm_of_not_isStarted (event : Event) (hstarted : ¬ w.client.store.isStarted) :
    Calm clock w (record host event w).2 := by
  refine ⟨hclock.now w.memory, ?_, rfl, rfl⟩
  change (w.client.store.recordEvent event _).2.ledger.eventsNamed _ = _
  rw [Store.recordEvent_of_not_isStarted hstarted]
  rfl

/-- The beginning of a session is recorded, unless it fails before that. -/
theorem process_sessionStart (steps : Nat) (w : World μ) :
    let ended := (process host steps (.builtIn .sessionStart)).run w
    (Calm clock w ended.2 ∧ ended.1 ≠ some (.ok ())) ∨ ∃ row, Notes clock row w ended.2 := by
  intro ended
  cases steps with
  | zero =>
      have hended : ended = (none, w) := by
        change (process host 0 _).run w = _
        rw [process.eq_1]
        rfl
      rw [hended]
      exact .inl ⟨refl w, (Option.some_ne_none _).symm⟩
  | succ steps =>
      have hended := @process_run μ host steps (.builtIn .sessionStart) w
      have hne : Event.builtIn .sessionStart ≠ .builtIn .enteredForeground := by decide
      rw [if_neg hne] at hended
      change ended = _ at hended
      rw [hended]
      by_cases hclient : w.client.isStarted
      · rw [if_pos hclient]
        by_cases hstore : w.client.store.isStarted
        · rw [respond_run_of_isStarted _ hstore]
          exact .inr ⟨_, (record_notes hclock hstore).trans_calm
            (follow_calm hclock steps _ _)⟩
        · rw [respond_run_of_not_isStarted _ hstore]
          exact .inl ⟨record_calm_of_not_isStarted hclock _ hstore, by simp⟩
      · rw [if_neg hclient]
        exact .inl ⟨refl w, fun hended => by cases hended⟩

/-- The client knows of the session whose beginning succeeded. -/
theorem Begins.of_success {w₁ w₂ : World μ} (hcalm : Calm clock w w₁)
    (hnotes : Notes clock row w₁ w₂) (happart : ∀ start, w.client.sessionStart = some start →
      w.client.sessionGap ≤ row.stamp.micros - start.micros)
    (hsuccess : beginning host steps w = some (.ok ())) :
    Begins clock host steps row w
      ⟨{ w₂.client with sessionStart := some (host.now w₂.memory).1 },
        (host.now w₂.memory).2⟩ where
  clock_le := Instant.le_trans hcalm.clock_le hnotes.clock_le
  le_clock := Instant.le_trans hnotes.le_clock (hclock.now w₂.memory)
  sessions_eq := hnotes.sessions_eq.trans (congrArg (· ++ [row]) hcalm.sessions_eq)
  gap_eq := hnotes.gap_eq.trans hcalm.gap_eq
  apart := happart
  success _ := ⟨_, rfl, Instant.le_trans hnotes.le_clock (hclock.le_now w₂.memory),
    hclock.now_le w₂.memory⟩
  failure hfailure := absurd hsuccess hfailure

omit hclock in
/-- A beginning that fails leaves the client with the session that it knew of. -/
theorem Begins.of_failure {w₁ w₂ : World μ} (hcalm : Calm clock w w₁)
    (hnotes : Notes clock row w₁ w₂) (happart : ∀ start, w.client.sessionStart = some start →
      w.client.sessionGap ≤ row.stamp.micros - start.micros)
    (hfailure : beginning host steps w ≠ some (.ok ())) :
    Begins clock host steps row w w₂ where
  clock_le := Instant.le_trans hcalm.clock_le hnotes.clock_le
  le_clock := hnotes.le_clock
  sessions_eq := hnotes.sessions_eq.trans (congrArg (· ++ [row]) hcalm.sessions_eq)
  gap_eq := hnotes.gap_eq.trans hcalm.gap_eq
  apart := happart
  success hsuccess := absurd hsuccess hfailure
  failure _ := hnotes.start_eq.trans hcalm.start_eq

omit hclock in
/-- Whether a session begins is decided at the time that the update asks for. -/
theorem updateSession_run (process : Event → Act μ Outcome) (w : World μ) :
    (updateSession host process).run w =
      (if (now host w).2.client.isInSession (host.now w.memory).1 then pure () else
        match (now host w).2.client.beginsSession (host.now w.memory).1 with
        | .ok true => do
          let outcome ← process (.builtIn .sessionStart)
          match outcome with
          | .ok () => do
            let start ← now host
            change fun c => { c with sessionStart := some start }
          | .error _ => pure ()
        | .ok false | .error _ => pure () : Act μ Unit).run (now host w).2 :=
  rfl

/-- The client begins a session or does not. -/
theorem updateSession_cases (steps : Nat) (w : World μ) :
    let w' := ((updateSession host (process host steps)).run w).2
    Calm clock w w' ∨ ∃ row, Begins clock host (steps + 1) row w w' := by
  intro w'
  let w₁ := (now host w).2
  have hw₁ : Calm clock w w₁ := now_calm hclock w
  change Calm clock w ((updateSession host (process host steps)).run w).2 ∨
    ∃ row, Begins clock host (steps + 1) row w ((updateSession host (process host steps)).run w).2
  rw [updateSession_run]
  split
  case isTrue => exact .inl hw₁
  case isFalse hsession =>
    split
    case h_1 =>
      have hbeginning : beginning host (steps + 1) w =
          ((process host steps (.builtIn .sessionStart)).run w₁).1 := rfl
      have hcases := process_sessionStart hclock steps w₁
      rw [Act.run_bind_apply]
      rcases hprocess : (process host steps (.builtIn .sessionStart)).run w₁ with ⟨ended, w₂⟩
      rw [hprocess] at hbeginning hcases
      dsimp only at hbeginning hcases
      obtain ⟨hcalm, hended⟩ | ⟨row, hnotes⟩ := hcases
      case inl =>
        left
        have hboth := IsTrans.trans _ _ _ hw₁ hcalm
        cases ended with
        | none => exact hboth
        | some outcome =>
            cases outcome with
            | error _ => exact hboth
            | ok _ => exact absurd rfl hended
      case inr =>
        right
        have happart : ∀ start, w.client.sessionStart = some start →
            w.client.sessionGap ≤ row.stamp.micros - start.micros := fun start hstart =>
          le_sub_of_isInSession (w := w₁) hsession hstart
            (Instant.le_trans (hclock.now_le w.memory) hnotes.clock_le)
        cases ended with
        | none => exact ⟨row, .of_failure hw₁ hnotes happart (by simp [hbeginning])⟩
        | some outcome =>
            cases outcome with
            | error _ => exact ⟨row, .of_failure hw₁ hnotes happart (by simp [hbeginning])⟩
            | ok _ => exact ⟨row, .of_success hclock hw₁ hnotes happart hbeginning⟩
    all_goals exact .inl hw₁

/-- The app's return to the foreground begins a session or is calm. -/
theorem enteredForeground_cases (steps : Nat) (w : World μ) :
    let w' := (Call.enteredForeground.run host steps w)
    Calm clock w w' ∨ ∃ row, Begins clock host steps row w w' := by
  intro w'
  cases steps with
  | zero =>
      have hw' : w' = w := by
        change ((process host 0 _).run w).2 = w
        rw [process.eq_1]
        rfl
      rw [hw']
      exact .inl (refl w)
  | succ steps =>
      have hw' := congrArg Prod.snd
        (@process_run μ host steps (.builtIn .enteredForeground) w)
      change w' = _ at hw'
      rw [if_pos rfl] at hw'
      rw [hw']
      split
      case isTrue =>
        have hcases := updateSession_cases hclock steps w
        rw [Act.run_bind_apply]
        rcases hupdate : (updateSession host (process host steps)).run w with ⟨ended, w₁⟩
        rw [hupdate] at hcases
        dsimp only at hcases
        cases ended with
        | none => exact hcases
        | some _ =>
            have hresponse :
                Calm clock w₁ ((respond host steps (.builtIn .enteredForeground)).run w₁).2 :=
              respond_calm hclock steps (by decide) w₁
            exact hcases.imp (fun hcalm => IsTrans.trans _ _ _ hcalm hresponse)
              (Exists.imp fun _ hbegins => hbegins.trans_calm hresponse)
      case isFalse => exact .inl (refl w)

end Ascending

/-! ## Runs -/

/-- The world after some calls, all of them to one host. -/
def afterCalls (host : Host μ) (steps : Nat) (w : World μ) (calls : List Call) : World μ :=
  calls.foldl (fun w call => call.run host steps w) w

theorem isUp_afterCalls (host : Host μ) (steps : Nat) {config : Config}
    (hup : w.client.IsUp config) (calls : List Call) :
    (afterCalls host steps w calls).client.IsUp config :=
  isUp_of_reaches (reaches_foldl host steps calls w) hup

/-- The client knows of a session that began at an event or later. -/
def Knows (clock : μ → Instant) (row : EventRow) (w : World μ) : Prop :=
  ∃ start, w.client.sessionStart = some start ∧ row.stamp ≤ start ∧ start ≤ clock w.memory

section Ascending

variable (hclock : host.Ascends clock) {config : Config}

include hclock

/-- A call begins a session or is calm. -/
theorem run_cases (hup : w.client.IsUp config) (steps : Nat) (call : Call) :
    Calm clock w (call.run host steps w) ∨
      call = .enteredForeground ∧ ∃ row, Begins clock host steps row w (call.run host steps w) := by
  by_cases hcall : call = .enteredForeground
  · subst hcall
    exact (enteredForeground_cases hclock steps w).imp id fun hbegins => ⟨rfl, hbegins⟩
  · exact .inl (run_calm hclock hup steps hcall)

/-- The call that records a session is the one that begins it. -/
theorem begins_of_sessions (hup : w.client.IsUp config) {call : Call}
    (h : (call.run host steps w).sessions = w.sessions ++ [row]) :
    Begins clock host steps row w (call.run host steps w) := by
  obtain hcalm | ⟨-, row', hbegins⟩ := run_cases hclock hup steps call
  · rw [hcalm.sessions_eq] at h
    simp at h
  · rw [hbegins.sessions_eq] at h
    obtain rfl := List.singleton_inj.1 (List.append_cancel_left h)
    exact hbegins

theorem gap_afterCalls (hup : w.client.IsUp config) (calls : List Call) :
    (afterCalls host steps w calls).client.sessionGap = w.client.sessionGap := by
  induction calls generalizing w with
  | nil => rfl
  | cons call rest ih =>
      refine (ih (isUp_afterCalls host steps hup [call])).trans ?_
      obtain hcalm | ⟨-, row, hbegins⟩ := run_cases hclock hup steps call
      · exact hcalm.gap_eq
      · exact hbegins.gap_eq

omit hclock in
theorem Knows.of_calm (h : Knows clock row w) (hcalm : Calm clock w w') : Knows clock row w' := by
  obtain ⟨start, hstart, hrow, hnow⟩ := h
  exact ⟨start, hcalm.start_eq.trans hstart, hrow, Instant.le_trans hnow hcalm.clock_le⟩

omit hclock in
/-- A session that begins takes the place of the one before, or leaves it. -/
theorem Knows.of_begins {later : EventRow} (h : Knows clock row w)
    (hbegins : Begins clock host steps later w w') : Knows clock row w' := by
  obtain ⟨start, hstart, hrow, hnow⟩ := h
  by_cases hsuccess : beginning host steps w = some (.ok ())
  · obtain ⟨start', hstart', hlater, hnow'⟩ := hbegins.success hsuccess
    exact ⟨start', hstart', Instant.le_trans hrow (Instant.le_trans hnow
      (Instant.le_trans hbegins.clock_le hlater)), hnow'⟩
  · exact ⟨start, (hbegins.failure hsuccess).trans hstart, hrow,
      Instant.le_trans hnow (Instant.le_trans hbegins.clock_le hbegins.le_clock)⟩

/-- What the client knows of a session stays true in every run. -/
theorem knows_afterCalls (hup : w.client.IsUp config) (h : Knows clock row w) (calls : List Call) :
    Knows clock row (afterCalls host steps w calls) := by
  induction calls generalizing w with
  | nil => exact h
  | cons call rest ih =>
      refine ih (isUp_afterCalls host steps hup [call]) ?_
      obtain hcalm | ⟨-, later, hbegins⟩ := run_cases hclock hup steps call
      · exact h.of_calm hcalm
      · exact h.of_begins hbegins

/-- **Sessions keep their distance from a beginning that succeeds.** In every run of a client that
is up, with a clock that does not go back, only the app's return to the foreground records that a
session begins, and once at most. The client knows of the new session from then on if the beginning
succeeded, that is, if everything that listens to it did. Otherwise it stays with the session that
it knew of. All sessions that begin after a beginning that succeeded are at least the gap later. -/
theorem sessions_keep_distance (hup : w.client.IsUp config) (steps : Nat) :
    (∀ (calls : List Call) (call : Call),
      let w₁ := afterCalls host steps w calls
      let w₂ := call.run host steps w₁
      (w₂.sessions = w₁.sessions ∧ w₂.client.sessionStart = w₁.client.sessionStart) ∨
      call = .enteredForeground ∧ ∃ row, w₂.sessions = w₁.sessions ++ [row] ∧
        (beginning host steps w₁ = some (.ok ()) →
          ∃ start, w₂.client.sessionStart = some start ∧ row.stamp ≤ start) ∧
        (beginning host steps w₁ ≠ some (.ok ()) →
          w₂.client.sessionStart = w₁.client.sessionStart)) ∧
    ∀ (calls : List Call) (call : Call) (between : List Call) (call' : Call) first later,
      let w₁ := afterCalls host steps w calls
      let w₂ := call.run host steps w₁
      let w₃ := afterCalls host steps w₂ between
      let w₄ := call'.run host steps w₃
      w₂.sessions = w₁.sessions ++ [first] → w₄.sessions = w₃.sessions ++ [later] →
        beginning host steps w₁ = some (.ok ()) →
          w.client.sessionGap ≤ later.stamp.micros - first.stamp.micros := by
  constructor
  · intro calls call w₁ w₂
    have hup₁ := isUp_afterCalls host steps hup calls
    obtain hcalm | ⟨hcall, row, hbegins⟩ := run_cases hclock hup₁ steps call
    · exact .inl ⟨hcalm.sessions_eq, hcalm.start_eq⟩
    · refine .inr ⟨hcall, row, hbegins.sessions_eq, fun hsuccess => ?_, hbegins.failure⟩
      obtain ⟨start, hstart, hrow, -⟩ := hbegins.success hsuccess
      exact ⟨start, hstart, hrow⟩
  · intro calls call between call' first later w₁ w₂ w₃ w₄ hfirst hlater hsuccess
    have hup₁ : w₁.client.IsUp config := isUp_afterCalls host steps hup calls
    have hup₂ : w₂.client.IsUp config := isUp_afterCalls host steps hup₁ [call]
    have hup₃ : w₃.client.IsUp config := isUp_afterCalls host steps hup₂ between
    have hbegins : Begins clock host steps first w₁ w₂ := begins_of_sessions hclock hup₁ hfirst
    have hbegins' : Begins clock host steps later w₃ w₄ := begins_of_sessions hclock hup₃ hlater
    have hknows : Knows clock first w₃ := by
      obtain ⟨start, hstart, hrow, hnow⟩ := hbegins.success hsuccess
      exact knows_afterCalls hclock hup₂ ⟨start, hstart, hrow, hnow⟩ between
    have hgap : w₃.client.sessionGap = w.client.sessionGap :=
      (gap_afterCalls hclock hup₂ between).trans
        ((gap_afterCalls hclock hup₁ [call]).trans (gap_afterCalls hclock hup calls))
    obtain ⟨start, hstart, hrow, -⟩ := hknows
    have hapart := hbegins'.apart start hstart
    rw [hgap] at hapart
    have hmicros : first.stamp.micros ≤ start.micros := hrow
    omega

end Ascending

/-- A client that greets at the beginning of a session. -/
def greeting : Config :=
  { Config.empty "app" with
    actions := [("hello", ⟨none, .reviewPrompt⟩)]
    triggers := [("greet", ⟨BuiltInEvent.sessionStart.name, "hello", none⟩)] }

/-- A host to which every request takes a minute, and that is busy at first. -/
def busy : Host Nat where
  present _ _ asked := (if asked < 8 then .error "busy" else .ok (), asked + 1)
  canOpen _ asked := (false, asked)
  takePlan _ asked := asked
  property _ asked := (none, asked)
  now asked := (⟨asked * 60000000⟩, asked + 1)
  random asked := (0, asked)
  file _ asked := (none, asked)
  web := ⟨fun _ asked => (none, asked), fun _ asked => (none, asked)⟩
  zone := .utc

theorem busy_ascends : busy.Ascends fun asked => ⟨asked * 60000000⟩ := by
  constructor <;> intros <;> simp only [busy, Instant.le_def] <;> omega

/-- The greeting fails when the first session begins, so the second one follows after six minutes.
Then it succeeds, and the third session keeps the distance of ten minutes. -/
theorem greeting_keeps_distance :
    let w : World Nat := ⟨running greeting, 0⟩
    let w₁ := afterCalls busy 5 w [.enteredForeground]
    let w₂ := Call.enteredForeground.run busy 5 w₁
    let w₃ := afterCalls busy 5 w₂ (.enteredBackground :: List.replicate 11 (.sendEvent "wait"))
    let w₄ := Call.enteredForeground.run busy 5 w₃
    let session := fun minute : Int => EventRow.mk (.builtIn .sessionStart) ⟨minute * 60000000⟩
    w₄.sessions = [session 1, session 7, session 25] ∧
      w₁.client.sessionStart = none ∧ w₂.client.sessionStart = some ⟨600000000⟩ ∧
      ¬ w.client.sessionGap ≤ (session 7).stamp.micros - (session 1).stamp.micros ∧
      w.client.sessionGap ≤ (session 25).stamp.micros - (session 7).stamp.micros := by
  intro w w₁ w₂ w₃ w₄ session
  have hup : w.client.IsUp greeting := rfl
  obtain ⟨-, hdistance⟩ := sessions_keep_distance busy_ascends hup 5
  refine ⟨by decide +kernel, by decide +kernel, by decide +kernel, by decide +kernel, ?_⟩
  exact hdistance [.enteredForeground] .enteredForeground
    (.enteredBackground :: List.replicate 11 (.sendEvent "wait")) .enteredForeground (session 7)
    (session 25) (by decide +kernel) (by decide +kernel) (by decide +kernel)

end Client

end Targeting
