/-
# What a condition can observe

The fields of a program are everything that its evaluation can observe by name.
Whatever the world, only inputs are read and only methods are invoked; so two
worlds that answer alike for the names of the fields cannot be told apart by the
program, whatever they answer for any other name. Both statements are about
whole runs: a name in a branch that a run does not take is a field as well, but
no run asks for a name that is not one.
-/

import Targeting.Condition.Program
import Targeting.Proofs.Condition.Simulation

namespace Targeting.Condition

variable {σ τ : Type}

namespace Program

/-- The truth that a value stands for, as the result of a program. -/
def verdict : Except EvalError Value → Except Error Bool
  | .ok (.bool b) => .ok b
  | .ok other => .error (.evaluation (.resultNotBool other.ty))
  | .error err => .error (.evaluation err)

theorem evaluate_eq_verdict (p : Program) (env : Environment σ) (s : σ) :
    p.evaluate env s =
      (verdict ((p.root.evaluate env).run s).1, ((p.root.evaluate env).run s).2) := by
  rw [evaluate]
  rcases (p.root.evaluate env).run s with ⟨err | v, s'⟩
  · rfl
  · cases v <;> rfl

/-- Recorded runs of a program in worlds that agree on its fields: the results
are the same, and so are the records, which stay within the fields. -/
theorem evaluate_recorded_of_agreesOn (p : Program) {related : σ → τ → Prop}
    {env : Environment σ} {env' : Environment τ} (h : env.AgreesOn p.fields related env')
    {s : σ} {t : τ} (hst : related s t) :
    (p.evaluate env.recorded (s, .none)).1 = (p.evaluate env'.recorded (t, .none)).1 ∧
      Recorded p.fields related (p.evaluate env.recorded (s, .none)).2
        (p.evaluate env'.recorded (t, .none)).2 := by
  have hnothing : Environment.Inquiry.none.Within p.fields :=
    ⟨fun _ hread => absurd hread List.not_mem_nil, fun _ hcall => absurd hcall List.not_mem_nil⟩
  obtain ⟨hresult, hstate⟩ :=
    Expr.evaluate_simulates h.recorded (s, .none) (t, .none) ⟨hst, rfl, hnothing⟩
  rw [evaluate_eq_verdict, evaluate_eq_verdict]
  exact ⟨congrArg verdict hresult, hstate⟩

/-- Functions invoked in worlds that agree on the fields of a program: the same
ones, and only methods. -/
theorem invocations_of_agreesOn (p : Program) {related : σ → τ → Prop}
    {env : Environment σ} {env' : Environment τ} (h : env.AgreesOn p.fields related env')
    {s : σ} {t : τ} (hst : related s t) :
    p.root.invocations env s = p.root.invocations env' t ∧
      ∀ call ∈ p.root.invocations env s, call.1 ∈ p.fields.methods := by
  obtain ⟨-, -, hsame, hused⟩ :=
    p.root.evaluateWith_simulates h.access.noted (s, []) (t, [])
      ⟨hst, rfl, fun _ hcall => absurd hcall List.not_mem_nil⟩
  exact ⟨hsame, fun call hcall => Fields.mem_methods_of_called (hused call hcall)⟩

/-- The fields of a program are everything that it can observe. In every world,
each property that a run reads is an input of the program, and each function that
it invokes is one of its methods, whether the condition computes it, the world
provides it or nobody does. Therefore, if two worlds answer alike for these names,
agree on the clock, the random numbers and the zone, and start from corresponding
states, then the program gives the same result in both, reads the same properties
and calls the same functions with the same arguments in the same order, and
leaves corresponding states. -/
theorem fields_cover_observations (p : Program) :
    (∀ {σ : Type} (env : Environment σ) (s : σ),
      (∀ name ∈ (p.evaluate env.recorded (s, .none)).2.2.reads, name ∈ p.fields.inputs) ∧
      (∀ call ∈ (p.evaluate env.recorded (s, .none)).2.2.calls, call.1 ∈ p.fields.methods) ∧
      ∀ call ∈ p.root.invocations env s, call.1 ∈ p.fields.methods) ∧
    ∀ {σ τ : Type} {related : σ → τ → Prop} {env : Environment σ} {env' : Environment τ},
      env.AgreesOn p.fields related env' → ∀ {s : σ} {t : τ}, related s t →
      let run := p.evaluate env.recorded (s, .none)
      let run' := p.evaluate env'.recorded (t, .none)
      run.1 = run'.1 ∧ run.2.2.reads = run'.2.2.reads ∧ run.2.2.calls = run'.2.2.calls ∧
        p.root.invocations env s = p.root.invocations env' t ∧ related run.2.1 run'.2.1 := by
  constructor
  · intro σ env s
    have hself := Environment.AgreesOn.refl p.fields env
    obtain ⟨-, -, -, hreads, hcalls⟩ := p.evaluate_recorded_of_agreesOn hself (s := s) rfl
    exact ⟨hreads, hcalls, (p.invocations_of_agreesOn hself (s := s) rfl).2⟩
  · intro σ τ related env env' hagree s t hst run run'
    obtain ⟨hresult, hstate, hasked, -⟩ := p.evaluate_recorded_of_agreesOn hagree hst
    exact ⟨hresult, congrArg _ hasked, congrArg _ hasked,
      (p.invocations_of_agreesOn hagree hst).1, hstate⟩

/-- The second world breaks down over `locale`, but the condition does not ask for
it. -/
theorem fields_cover_dark_mode_and_openings :
    let p := Program.mk (.binary .and (.ident "dark_mode")
      (.binary .gt (.call "eventCount" [.text "open"]) (.int 1)))
    let env := Environment.ofTables [("dark_mode", .bool true), ("locale", .text "en")]
      [("eventCount", .int 2)]
    let env' := Environment.ofTables [("dark_mode", .bool true)]
      [("canOpenUrl", .bool false), ("eventCount", .int 2)]
    p.fields = ⟨["dark_mode", "eventCount"], ["dark_mode"], ["eventCount"]⟩ ∧
      (p.evaluate env.recorded ((), .none)).1 = (p.evaluate env'.recorded ((), .none)).1 ∧
      (p.evaluate env.recorded ((), .none)).2.2.reads =
        (p.evaluate env'.recorded ((), .none)).2.2.reads ∧
      (p.evaluate env.recorded ((), .none)).2.2.calls =
        (p.evaluate env'.recorded ((), .none)).2.2.calls := by
  intro p env env'
  have hfields : p.fields = ⟨["dark_mode", "eventCount"], ["dark_mode"], ["eventCount"]⟩ := by
    decide +kernel
  have hagree : env.AgreesOn p.fields Eq env' := by
    rw [hfields]
    refine ⟨fun name hname => ?_, fun name hname args => ?_, .refl _, .refl _, .refl _, rfl⟩
    · obtain rfl := List.mem_singleton.1 hname
      rintro ⟨⟩ ⟨⟩ -
      exact ⟨rfl, rfl⟩
    · obtain rfl := List.mem_singleton.1 hname
      rintro ⟨⟩ ⟨⟩ -
      exact ⟨rfl, rfl⟩
  obtain ⟨hresult, hreads, hcalls, -⟩ := (fields_cover_observations p).2 hagree (s := ()) rfl
  exact ⟨hfields, hresult, hreads, hcalls⟩

end Program

end Targeting.Condition
