/-
# Laws of runs

A run threads the state of the world and may fail. What later modules need to
know about sequencing is said here once, in three forms: where a run goes from
one state, what every run of a computation ends with, and when two runs over
different worlds cannot be told apart by their results.
-/

import Targeting.Condition.Environment

namespace Targeting.Condition

namespace Run

variable {σ τ α β : Type}

@[simp]
theorem run_liftExcept_apply (result : Except EvalError α) (s : σ) :
    (liftExcept result : Run σ α).run s = (result, s) := by
  cases result <;> rfl

/-- A sequence runs its second part from the state that the first part left, or
ends where the first part failed. -/
theorem run_bind_apply (first : Run σ α) (next : α → Run σ β) (s : σ) :
    (first >>= next).run s =
      match first.run s with
      | (.ok a, s') => (next a).run s'
      | (.error err, s') => (.error err, s') := by
  change (match first.run s with | (result, s') => ExceptT.bindCont next result s') = _
  rcases first.run s with ⟨err | a, s'⟩ <;> rfl

theorem run_bind_of_ok {first : Run σ α} {next : α → Run σ β} {s s' : σ} {a : α}
    (hfirst : first.run s = (.ok a, s')) : (first >>= next).run s = (next a).run s' := by
  rw [run_bind_apply, hfirst]

theorem run_bind_of_error {first : Run σ α} {next : α → Run σ β} {s s' : σ} {err : EvalError}
    (hfirst : first.run s = (.error err, s')) :
    (first >>= next).run s = (.error err, s') := by
  rw [run_bind_apply, hfirst]

/-- The run that asks one question and makes a result of the answer. -/
def asking (ask : σ → β × σ) (result : β → Except EvalError α) : Run σ α :=
  fun s => (result (ask s).1, (ask s).2)

/-! ## What a run ends with -/

/-- A result is a value of one kind or an error of another. -/
def EndsIn (answers : α → Prop) (fails : EvalError → Prop) : Except EvalError α → Prop
  | .ok a => answers a
  | .error err => fails err

theorem EndsIn.of_ok {answers : α → Prop} {result : Except EvalError α}
    (h : ∀ a, result = .ok a → answers a) : EndsIn answers (fun _ => True) result := by
  cases result with
  | ok a => exact h a rfl
  | error err => exact True.intro

theorem EndsIn.mono {answers answers' : α → Prop} {fails fails' : EvalError → Prop}
    {result : Except EvalError α} (h : EndsIn answers fails result)
    (hanswers : ∀ a, answers a → answers' a) (hfails : ∀ err, fails err → fails' err) :
    EndsIn answers' fails' result := by
  cases result with
  | ok a => exact hanswers a h
  | error err => exact hfails err h

/-- Every run of a computation ends in a value of one kind or in an error of
another, whatever state it starts from. -/
def Ends (m : Run σ α) (answers : α → Prop) (fails : EvalError → Prop) : Prop :=
  ∀ s, EndsIn answers fails (m.run s).1

/-- A computation may answer with a value: some run of it does. -/
def Returns (m : Run σ α) (a : α) : Prop :=
  ∃ s s', m.run s = (.ok a, s')

theorem Returns.eq_of_pure {a b : α} (h : Returns (pure a : Run σ α) b) : b = a := by
  obtain ⟨s, s', hrun⟩ := h
  cases hrun
  rfl

namespace Ends

variable {answers answers' : α → Prop} {fails fails' : EvalError → Prop}

theorem pure {a : α} (ha : answers a) : Ends (Pure.pure a : Run σ α) answers fails :=
  fun _ => ha

theorem throw {err : EvalError} (herr : fails err) :
    Ends (MonadExcept.throw err : Run σ α) answers fails :=
  fun _ => herr

theorem liftExcept {result : Except EvalError α} (hresult : EndsIn answers fails result) :
    Ends (liftExcept result : Run σ α) answers fails := by
  intro s
  rwa [run_liftExcept_apply]

theorem asking {ask : σ → β × σ} {result : β → Except EvalError α}
    (hask : ∀ s, EndsIn answers fails (result (ask s).1)) :
    Ends (asking ask result) answers fails :=
  hask

/-- Nothing is promised. -/
theorem trivial (m : Run σ α) : Ends m (fun _ => True) (fun _ => True) := by
  intro s
  cases (m.run s).1 <;> exact True.intro

/-- The second part has to cope with every answer of the first. -/
theorem bind {first : Run σ α} {next : α → Run σ β} {ends : β → Prop}
    (hfirst : Ends first answers fails) (hnext : ∀ a, answers a → Ends (next a) ends fails) :
    Ends (first >>= next) ends fails := by
  intro s
  have hs := hfirst s
  rcases hrun : first.run s with ⟨err | a, s'⟩ <;> rw [hrun] at hs
  · rw [run_bind_of_error hrun]
    exact hs
  · rw [run_bind_of_ok hrun]
    exact hnext a hs s'

theorem mono {m : Run σ α} (hm : Ends m answers fails)
    (hanswers : ∀ a, answers a → answers' a) (hfails : ∀ err, fails err → fails' err) :
    Ends m answers' fails' :=
  fun s => (hm s).mono hanswers hfails

/-- Answers may be assumed to be answers of the computation itself. -/
theorem returns {m : Run σ α} (hm : Ends m answers fails) :
    Ends m (fun a => answers a ∧ Returns m a) fails := by
  intro s
  have hs := hm s
  rcases hrun : m.run s with ⟨err | a, s'⟩ <;> rw [hrun] at hs
  · exact hs
  · exact ⟨hs, s, s', hrun⟩

end Ends

/-! ## Runs over two worlds -/

/-- From related states two questions get the same answer, and they leave related
states. -/
def Alike (related : σ → τ → Prop) (ask : σ → α × σ) (ask' : τ → α × τ) : Prop :=
  ∀ s t, related s t → (ask s).1 = (ask' t).1 ∧ related (ask s).2 (ask' t).2

/-- From related states two computations give the same result, and they leave
related states. -/
def Simulates (related : σ → τ → Prop) (m : Run σ α) (m' : Run τ α) : Prop :=
  Alike related m.run m'.run

theorem Alike.refl (ask : σ → α × σ) : Alike Eq ask ask := by
  rintro s _ rfl
  exact ⟨rfl, rfl⟩

namespace Simulates

variable {related : σ → τ → Prop}

theorem pure (a : α) : Simulates related (Pure.pure a) (Pure.pure a) :=
  fun _ _ hst => ⟨rfl, hst⟩

theorem throw (err : EvalError) :
    Simulates related (MonadExcept.throw err : Run σ α) (MonadExcept.throw err) :=
  fun _ _ hst => ⟨rfl, hst⟩

theorem liftExcept (result : Except EvalError α) :
    Simulates related (liftExcept result) (liftExcept result) := by
  intro s t hst
  rw [run_liftExcept_apply, run_liftExcept_apply]
  exact ⟨rfl, hst⟩

theorem asking {ask : σ → β × σ} {ask' : τ → β × τ} (hask : Alike related ask ask')
    (result : β → Except EvalError α) :
    Simulates related (asking ask result) (asking ask' result) := by
  intro s t hst
  obtain ⟨hanswer, hstate⟩ := hask s t hst
  exact ⟨congrArg result hanswer, hstate⟩

theorem bind {first : Run σ α} {first' : Run τ α} {next : α → Run σ β} {next' : α → Run τ β}
    (hfirst : Simulates related first first')
    (hnext : ∀ a, Simulates related (next a) (next' a)) :
    Simulates related (first >>= next) (first' >>= next') := by
  intro s t hst
  obtain ⟨hresult, hstate⟩ := hfirst s t hst
  rcases hrun : first.run s with ⟨result, s'⟩
  rcases hrun' : first'.run t with ⟨result', t'⟩
  rw [hrun, hrun'] at hresult hstate
  obtain rfl : result = result' := hresult
  cases result with
  | ok a =>
      rw [run_bind_of_ok hrun, run_bind_of_ok hrun']
      exact hnext a s' t' hstate
  | error err =>
      rw [run_bind_of_error hrun, run_bind_of_error hrun']
      exact ⟨rfl, hstate⟩

end Simulates

end Run

end Targeting.Condition
