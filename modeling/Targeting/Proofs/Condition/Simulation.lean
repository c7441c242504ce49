/-
# Evaluation in two worlds

Two evaluations of one expression cannot be told apart if reading a name and
calling one cannot be, for the names that the expression uses. The worlds may
keep different kinds of state: a relation says which states correspond, and
answers have to lead from corresponding states to corresponding states.

Two instances are laid down here. A world with a record of what it was asked
answers like the world itself. And access that notes every function invoked,
those included that a condition computes by itself, gives the same values.
-/

import Targeting.Condition.Fields
import Targeting.Proofs.Condition.Evaluation

namespace Targeting.Condition

open Run

variable {σ τ : Type}

namespace Expr

/-- The names that members of a list use are used by the list. -/
theorem uses_subset_usesAll {item : Expr} {items : List Expr} (hitem : item ∈ items) :
    item.uses ⊆ usesAll items := by
  induction items with
  | nil => cases hitem
  | cons first rest ih =>
      rw [usesAll]
      rcases List.mem_cons.1 hitem with rfl | hrest
      · exact List.subset_append_left _ _
      · exact fun use huse => List.mem_append_right _ (ih hrest huse)

end Expr

/-- Two ways of access give corresponding answers for names that are used. -/
structure Access.Corresponds (related : σ → τ → Prop) (uses : List Use)
    (access : Access σ) (access' : Access τ) : Prop where
  read : ∀ {name}, .read name ∈ uses → Simulates related (access.read name) (access'.read name)
  call : ∀ {name}, .called name ∈ uses → ∀ args,
    Simulates related (access.call name args) (access'.call name args)

theorem Access.Corresponds.mono {related : σ → τ → Prop} {uses fewer : List Use}
    {access : Access σ} {access' : Access τ}
    (h : access.Corresponds related uses access') (hfewer : fewer ⊆ uses) :
    access.Corresponds related fewer access' :=
  ⟨fun huse => h.read (hfewer huse), fun huse => h.call (hfewer huse)⟩

namespace Expr

variable {related : σ → τ → Prop} {access : Access σ} {access' : Access τ}

theorem evaluateAllWith_simulates {items : List Expr}
    (hitems : ∀ item ∈ items,
      Simulates related (item.evaluateWith access) (item.evaluateWith access')) :
    Simulates related (evaluateAllWith access items) (evaluateAllWith access' items) := by
  induction items with
  | nil => exact .pure []
  | cons first rest ih =>
      obtain ⟨hfirst, hrest⟩ := List.forall_mem_cons.1 hitems
      rw [evaluateAllWith, evaluateAllWith]
      exact hfirst.bind fun _ => (ih hrest).bind fun _ => .pure _

/-- Evaluation in two worlds that answer alike for the names of an expression
gives the same result and leaves corresponding states. -/
theorem evaluateWith_simulates (e : Expr) (h : access.Corresponds related e.uses access') :
    Simulates related (e.evaluateWith access) (e.evaluateWith access') := by
  induction e using Expr.induction with
  | literal e v hliteral =>
      rw [evaluateWith_of_literalValue? access hliteral,
        evaluateWith_of_literalValue? access' hliteral]
      exact .pure v
  | list items ih =>
      rw [uses] at h
      rw [evaluateWith, evaluateWith]
      refine (evaluateAllWith_simulates fun item hitem => ?_).bind fun _ => .pure _
      exact ih item hitem (h.mono (uses_subset_usesAll hitem))
  | ident name =>
      rw [evaluateWith, evaluateWith]
      exact h.read List.mem_cons_self
  | call name args ih =>
      rw [uses] at h
      have hargs := h.mono (List.subset_cons_self _ _)
      rw [evaluateWith, evaluateWith]
      refine (evaluateAllWith_simulates fun arg harg => ?_).bind fun values =>
        h.call List.mem_cons_self values
      exact ih arg harg (hargs.mono (uses_subset_usesAll harg))
  | unary op operand ih =>
      rw [evaluateWith, evaluateWith]
      exact (ih h).bind fun _ => .liftExcept _
  | binary op left right ihleft ihright =>
      rw [uses] at h
      have hleft := ihleft (h.mono (List.subset_append_left _ _))
      have hright := ihright (h.mono (List.subset_append_right _ _))
      rw [evaluateWith, evaluateWith]
      refine hleft.bind fun leftValue => ?_
      cases op.decided? leftValue with
      | some result => exact .liftExcept result
      | none => exact hright.bind fun _ => .liftExcept _
  | conditional condition thenCase elseCase ihcond ihthen ihelse =>
      rw [uses, List.append_assoc] at h
      have hbranches := h.mono (List.subset_append_right _ _)
      have hthen := ihthen (hbranches.mono (List.subset_append_left _ _))
      have helse := ihelse (hbranches.mono (List.subset_append_right _ _))
      rw [evaluateWith, evaluateWith]
      refine (ihcond (h.mono (List.subset_append_left _ _))).bind fun decision => ?_
      split
      · exact hthen
      · exact helse
      · exact .throw _

end Expr

/-! ## Environments that agree on the names of an expression -/

/-- Two environments answer alike for the names that a condition uses, and in
whatever is not asked by name: the clock, the random numbers and the zone. -/
structure Environment.AgreesOn (fields : Fields) (related : σ → τ → Prop)
    (env : Environment σ) (env' : Environment τ) : Prop where
  property : ∀ name ∈ fields.inputs, Alike related (env.property name) (env'.property name)
  function : ∀ name ∈ fields.methods, ∀ args,
    Alike related (env.function name args) (env'.function name args)
  sessionRandom : Alike related env.sessionRandom env'.sessionRandom
  random : Alike related env.random env'.random
  now : Alike related env.now env'.now
  zone : env.zone = env'.zone

theorem Environment.AgreesOn.refl (fields : Fields) (env : Environment σ) :
    env.AgreesOn fields Eq env where
  property name _ := .refl (env.property name)
  function name _ args := .refl (env.function name args)
  sessionRandom := .refl env.sessionRandom
  random := .refl env.random
  now := .refl env.now
  zone := rfl

theorem Fields.mem_inputs_of_read {e : Expr} {name : String} (huse : .read name ∈ e.uses) :
    name ∈ (Fields.of e).inputs :=
  NameSet.mem_ofList.2 (List.mem_map.2 ⟨.read name, List.mem_filter.2 ⟨huse, rfl⟩, rfl⟩)

theorem Fields.mem_methods_of_called {e : Expr} {name : String}
    (huse : .called name ∈ e.uses) : name ∈ (Fields.of e).methods :=
  NameSet.mem_ofList.2 (List.mem_map.2 ⟨.called name, List.mem_filter.2 ⟨huse, rfl⟩, rfl⟩)

section Asking

variable {related : σ → τ → Prop} {env : Environment σ} {env' : Environment τ}

theorem StaticFunction.call_simulates {fields : Fields} (h : env.AgreesOn fields related env')
    (name : String) (f : StaticFunction) (args : List Value) :
    Simulates related (f.call env name args) (f.call env' name args) := by
  rw [call_eq, call_eq, h.zone]
  cases f
  case now => exact .asking h.now _
  case random => exact .asking h.random _
  case sessionRandom => exact .asking h.sessionRandom _
  all_goals exact .liftExcept _

theorem callFunction_simulates {fields : Fields} (h : env.AgreesOn fields related env')
    {name : String} (hname : name ∈ fields.methods) (args : List Value) :
    Simulates related (callFunction env name args) (callFunction env' name args) := by
  have hask : Simulates related (askFunction env name args) (askFunction env' name args) := by
    rw [askFunction_eq_asking, askFunction_eq_asking]
    exact .asking (h.function name hname args) _
  rw [callFunction, callFunction]
  split
  · exact hask
  · split
    · split
      · exact StaticFunction.call_simulates h name _ args
      · exact hask
    · exact .throw _

theorem readName_simulates {fields : Fields} (h : env.AgreesOn fields related env')
    {name : String} (hname : name ∈ fields.inputs) :
    Simulates related (readName env name) (readName env' name) := by
  rw [readName, readName]
  split
  · exact .pure _
  · rw [askProperty_eq_asking, askProperty_eq_asking]
    exact .asking (h.property name hname) _

/-- Environments that agree on the names of an expression give corresponding
access to them. -/
theorem Environment.AgreesOn.access {e : Expr}
    (h : env.AgreesOn (Fields.of e) related env') :
    (Access.of env).Corresponds related e.uses (.of env') where
  read huse := readName_simulates h (Fields.mem_inputs_of_read huse)
  call huse := callFunction_simulates h (Fields.mem_methods_of_called huse)

theorem Expr.evaluate_simulates {e : Expr} (h : env.AgreesOn (Fields.of e) related env') :
    Simulates related (e.evaluate env) (e.evaluate env') := by
  rw [e.evaluate_eq_evaluateWith, e.evaluate_eq_evaluateWith]
  exact e.evaluateWith_simulates h.access

end Asking

/-! ## Records -/

/-- What was asked stays within the names that a condition uses. -/
def Environment.Inquiry.Within (asked : Environment.Inquiry) (fields : Fields) : Prop :=
  (∀ name ∈ asked.reads, name ∈ fields.inputs) ∧ ∀ call ∈ asked.calls, call.1 ∈ fields.methods

/-- Corresponding states of two recorded worlds: the worlds correspond, both were
asked the same, and nothing else was asked than the names of a condition. -/
def Recorded (fields : Fields) (related : σ → τ → Prop)
    (s : σ × Environment.Inquiry) (t : τ × Environment.Inquiry) : Prop :=
  related s.1 t.1 ∧ s.2 = t.2 ∧ s.2.Within fields

variable {related : σ → τ → Prop} {env : Environment σ} {env' : Environment τ}

/-- A world with a record corresponds to the world itself. -/
theorem Environment.agreesOn_recorded (fields : Fields) (env : Environment σ) :
    env.AgreesOn fields (fun s t => s = t.1) env.recorded where
  property name _ := by rintro s ⟨_, asked⟩ rfl; exact ⟨rfl, rfl⟩
  function name _ args := by rintro s ⟨_, asked⟩ rfl; exact ⟨rfl, rfl⟩
  sessionRandom := by rintro s ⟨_, asked⟩ rfl; exact ⟨rfl, rfl⟩
  random := by rintro s ⟨_, asked⟩ rfl; exact ⟨rfl, rfl⟩
  now := by rintro s ⟨_, asked⟩ rfl; exact ⟨rfl, rfl⟩
  zone := rfl

/-- Worlds that agree on the names of a condition still do so with records, and
the records stay the same and within those names. -/
theorem Environment.AgreesOn.recorded {fields : Fields} (h : env.AgreesOn fields related env') :
    env.recorded.AgreesOn fields (Recorded fields related) env'.recorded where
  property name hname := by
    rintro ⟨s, asked⟩ ⟨t, _⟩ ⟨hst, rfl, hreads, hcalls⟩
    obtain ⟨hanswer, hstate⟩ := h.property name hname s t hst
    refine ⟨hanswer, hstate, rfl, fun read hread => ?_, hcalls⟩
    rcases List.mem_append.1 hread with hread | hread
    · exact hreads read hread
    · rwa [List.mem_singleton.1 hread]
  function name hname args := by
    rintro ⟨s, asked⟩ ⟨t, _⟩ ⟨hst, rfl, hreads, hcalls⟩
    obtain ⟨hanswer, hstate⟩ := h.function name hname args s t hst
    refine ⟨hanswer, hstate, rfl, hreads, fun call hcall => ?_⟩
    rcases List.mem_append.1 hcall with hcall | hcall
    · exact hcalls call hcall
    · rwa [List.mem_singleton.1 hcall]
  sessionRandom := by
    rintro ⟨s, asked⟩ ⟨t, _⟩ ⟨hst, hasked⟩
    exact ⟨(h.sessionRandom s t hst).1, (h.sessionRandom s t hst).2, hasked⟩
  random := by
    rintro ⟨s, asked⟩ ⟨t, _⟩ ⟨hst, hasked⟩
    exact ⟨(h.random s t hst).1, (h.random s t hst).2, hasked⟩
  now := by
    rintro ⟨s, asked⟩ ⟨t, _⟩ ⟨hst, hasked⟩
    exact ⟨(h.now s t hst).1, (h.now s t hst).2, hasked⟩
  zone := h.zone

/-- A function with the values of its arguments. -/
abbrev Invocation := String × List Value

/-- The same access, with a note of every function that is invoked. -/
def Access.noted (access : Access σ) : Access (σ × List Invocation) where
  read name := fun s => (((access.read name).run s.1).1, ((access.read name).run s.1).2, s.2)
  call name args := fun s =>
    (((access.call name args).run s.1).1, ((access.call name args).run s.1).2,
      s.2 ++ [(name, args)])

/-- The functions that the evaluation of an expression invokes, in order: those
that a condition computes by itself, those of the world, and those that nobody
provides. -/
def Expr.invocations (env : Environment σ) (e : Expr) (s : σ) : List Invocation :=
  ((e.evaluateWith (Access.of env).noted).run (s, [])).2.2

/-- Access with notes corresponds to the access itself. -/
theorem Access.corresponds_noted (access : Access σ) (uses : List Use) :
    access.Corresponds (fun s t => s = t.1) uses access.noted where
  read _ := by rintro s ⟨_, noted⟩ rfl; exact ⟨rfl, rfl⟩
  call _ args := by rintro s ⟨_, noted⟩ rfl; exact ⟨rfl, rfl⟩

/-- Notes are taken of the very run that they are about: they change neither its
result nor where it leads. -/
theorem Expr.run_evaluate_eq_noted (env : Environment σ) (e : Expr) (s : σ) :
    (e.evaluate env).run s =
      (((e.evaluateWith (Access.of env).noted).run (s, [])).1,
        ((e.evaluateWith (Access.of env).noted).run (s, [])).2.1) := by
  have hnoted := Access.corresponds_noted (Access.of env) e.uses
  obtain ⟨hresult, hstate⟩ := e.evaluateWith_simulates hnoted s (s, []) rfl
  rw [e.evaluate_eq_evaluateWith]
  exact Prod.ext hresult hstate

/-- Corresponding access still corresponds with notes; the notes stay the same and
name only functions that are used. -/
theorem Access.Corresponds.noted {uses : List Use} {access : Access σ} {access' : Access τ}
    (h : access.Corresponds related uses access') :
    access.noted.Corresponds
      (fun s t => related s.1 t.1 ∧ s.2 = t.2 ∧ ∀ call ∈ s.2, .called call.1 ∈ uses)
      uses access'.noted where
  read huse := by
    rintro ⟨s, noted⟩ ⟨t, _⟩ ⟨hst, hnoted⟩
    exact ⟨(h.read huse s t hst).1, (h.read huse s t hst).2, hnoted⟩
  call {name} huse args := by
    rintro ⟨s, noted⟩ ⟨t, _⟩ ⟨hst, rfl, hcalls⟩
    obtain ⟨hanswer, hstate⟩ := h.call huse args s t hst
    refine ⟨hanswer, hstate, rfl, fun call hcall => ?_⟩
    rcases List.mem_append.1 hcall with hcall | hcall
    · exact hcalls call hcall
    · rwa [List.mem_singleton.1 hcall]

end Targeting.Condition
