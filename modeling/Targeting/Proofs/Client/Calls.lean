/-
# What an app asks of a client

A run of an app is a sequence of calls, each of them to some host. Of all calls only the start
changes how far a client has come with its start, and its configuration.
-/

import Mathlib.Logic.Relation
import Targeting.Client.Operations
import Targeting.Proofs.Client.Run

namespace Targeting

open Relation (ReflTransGen)

variable {μ : Type}

/-- What an app may ask of a client. -/
inductive Call where
  | start
  | register (name : String) (provider : Provider)
  | setCustom (name : String) (value : PropertyValue)
  | setCustomJson (bytes : List UInt8)
  | sendEvent (name : String)
  | enteredForeground
  | enteredBackground
  | perform (name : String)
  | notificationTapped (id : String)
  | backgroundWork
  | checkNamed (name : String)
  | check (source : String)

/-- The world after a call, whatever its answer. -/
def Call.run (host : Host μ) (steps : Nat) (w : World μ) : Call → World μ
  | start => ((Client.start host steps).run w).2
  | register name provider => (Client.register name provider w).2
  | setCustom name value => (Client.setCustom host name value w).2
  | setCustomJson bytes => (Client.setCustomJson host bytes w).2
  | sendEvent name => ((Client.sendEvent host steps name).run w).2
  | enteredForeground => ((Client.enteredForeground host steps).run w).2
  | enteredBackground => ((Client.enteredBackground host steps).run w).2
  | perform name => ((Client.perform host steps name).run w).2
  | notificationTapped id => ((Client.notificationTapped host steps id).run w).2
  | backgroundWork => (Client.backgroundWork host w).2
  | checkNamed name => ((Client.checkNamed host steps name).run w).2
  | check source => (Client.check host source w).2

/-- A world comes of another one by calls, to the same host or to others. -/
def Reaches : World μ → World μ → Prop :=
  ReflTransGen fun w w' => ∃ (host : Host μ) (steps : Nat) (call : Call), call.run host steps w = w'

theorem reaches_foldl (host : Host μ) (steps : Nat) (calls : List Call) (w : World μ) :
    Reaches w (calls.foldl (fun w call => call.run host steps w) w) := by
  induction calls generalizing w with
  | nil => exact .refl
  | cons call rest ih => exact .head ⟨host, steps, call, rfl⟩ (ih _)

namespace Client

variable {host : Host μ} {steps : Nat}

/-- How far a client has come with its start, and the configuration that it has. -/
def phase (c : Client) : Bool × Bool × Option Config := (c.isStarting, c.isStarted, c.config)

/-- No start is under way or has succeeded, and there is no configuration. -/
def IsIdle (c : Client) : Prop := c.phase = (false, false, none)

/-- The client has started with a configuration. -/
def IsUp (c : Client) (config : Config) : Prop := c.phase = (true, true, some config)

section Phase

variable {k : Bool × Bool × Option Config}

theorem evaluate_keeps_phase (condition : Condition) :
    Step.Keeps phase k (fun _ => True) (evaluate host condition) :=
  .inSurroundings (fun _ _ => rfl) _

theorem keeps_phase_of_standing {α : Type} {answers : α → Prop} {m : Step μ α}
    (h : ∀ k, Step.Keeps standing k answers m) : Step.Keeps phase k answers m :=
  .through (fun _ => rfl) fun k _ => h k

theorem changeRegistry_keeps (registry : Registry) :
    Step.Keeps phase k (fun _ => True)
      (change fun c => { c with registry := registry } : Step μ Unit) :=
  .change fun _ => rfl

theorem sendThrough_keeps_phase (name : String) :
    Act.Keeps phase k (fun _ => True) (sendThrough (process host steps) name) :=
  keeps_phase_of_standing fun _ =>
    sendThrough_keeps lenient_true fun event _ => (keeps_standing steps).1 event

theorem perform_keeps_phase (name : String) :
    Act.Keeps phase k (fun _ => True) (perform host steps name) :=
  keeps_phase_of_standing fun _ => (keeps_standing steps).2 name

theorem process_keeps_phase (event : Event) :
    Act.Keeps phase k (fun _ => True) (process host steps event) :=
  keeps_phase_of_standing fun _ => (keeps_standing steps).1 event

theorem register_keeps_phase (name : String) (provider : Provider) :
    Step.Keeps phase k (fun _ => True) (register name provider : Step μ Outcome) :=
  Step.Keeps.current.bind fun _ _ => (changeRegistry_keeps _).bind fun _ _ => .pure trivial

theorem setCustom_keeps_phase (name : String) (value : PropertyValue) :
    Step.Keeps phase k (fun _ => True) (setCustom host name value) := by
  refine Step.Keeps.current.bind fun c _ => (changeRegistry_keeps _).bind fun _ _ => ?_
  split
  · exact .pure trivial
  · exact (keeps_phase_of_standing fun _ => recordSample_keeps _ _ _).bind fun _ _ => .pure trivial

theorem samplesOf_keeps_phase (names : List String) :
    Step.Keeps phase k (fun _ => True) (samplesOf host names) :=
  (Step.Keeps.inSurroundings (fun _ _ => rfl) _).bind fun _ _ => .pure trivial

theorem setCustomJson_keeps_phase (bytes : List UInt8) :
    Step.Keeps phase k (fun _ => True) (setCustomJson host bytes) := by
  refine Step.Keeps.current.bind fun c _ => (changeRegistry_keeps _).bind fun _ _ => ?_
  split
  · exact .pure trivial
  · refine (samplesOf_keeps_phase _).bind fun samples _ => ?_
    exact (keeps_phase_of_standing fun _ => recordSamples_keeps _).bind fun _ _ => .pure trivial

theorem notificationTapped_keeps_phase (id : String) :
    Act.Keeps phase k (fun _ => True) (notificationTapped host steps id) := by
  refine .step .current fun c _ => ?_
  split
  · exact .pure trivial
  · dsimp only
    split
    · exact perform_keeps_phase _
    · exact .pure trivial

theorem backgroundWork_keeps_phase : Step.Keeps phase k (fun _ => True) (backgroundWork host) := by
  refine Step.Keeps.current.bind fun c _ => ?_
  split
  · exact (keeps_phase_of_standing fun _ => updatePlan_keeps).bind fun _ _ => .pure trivial
  · exact .pure trivial

theorem checkNamed_keeps_phase (name : String) :
    Act.Keeps phase k (fun _ => True) (checkNamed host steps name) := by
  refine .step .current fun c _ => ?_
  split
  · split
    · exact .pure trivial
    · refine .step (evaluate_keeps_phase _) fun result _ => ?_
      exact (sendThrough_keeps_phase _).bind (fun _ => trivial) fun _ _ => .pure trivial
  · exact .pure trivial

theorem check_keeps_phase (source : String) :
    Step.Keeps phase k (fun _ => True) (check host source) := by
  refine Step.Keeps.current.bind fun c _ => ?_
  split
  · exact .pure trivial
  · exact (evaluate_keeps_phase _).bind fun _ _ => .pure trivial

end Phase

/-- Only a start changes how far a client has come with it, and its configuration. -/
theorem phase_run {call : Call} (h : call ≠ .start) (w : World μ) :
    (call.run host steps w).client.phase = w.client.phase := by
  cases call with
  | start => exact absurd rfl h
  | register name provider => exact (register_keeps_phase name provider w rfl).1
  | setCustom name value => exact (setCustom_keeps_phase name value w rfl).1
  | setCustomJson bytes => exact (setCustomJson_keeps_phase bytes w rfl).1
  | sendEvent name => exact (sendThrough_keeps_phase name w rfl).1
  | enteredForeground => exact (process_keeps_phase _ w rfl).1
  | enteredBackground => exact (process_keeps_phase _ w rfl).1
  | perform name => exact (perform_keeps_phase name w rfl).1
  | notificationTapped id => exact (notificationTapped_keeps_phase id w rfl).1
  | backgroundWork => exact (backgroundWork_keeps_phase w rfl).1
  | checkNamed name => exact (checkNamed_keeps_phase name w rfl).1
  | check source => exact (check_keeps_phase source w rfl).1

end Client

end Targeting
