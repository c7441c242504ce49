/-
# The life of a condition

A condition is validated by engines, asked for its program and its names, evaluated and copied, any
number of times and in any order, and each of its copies remembers for itself what it has compiled.
None of this changes what a condition means. As long as it is not degraded it means its source:
whichever way its program was first compiled, that is the program of the source, and a source that
does not compile fails alike each time. It is degraded by lenient validation and only if the source
does not compile; then it is false for good. An engine that refuses it leaves it as it was.

The phase of a condition, relative to the source that it was made from, carries all of this. It is
kept by one operation, and so by every run.
-/

import Targeting.Proofs.Condition.Acceptance

namespace Targeting.Condition

/-! ## Operations on the copies of a condition -/

/-- What may be done with the copies of a condition, which are told apart by their places. -/
inductive Operation : Type 1 where
  | prepare (copy : Nat) (engine : Engine)
  | program (copy : Nat)
  | fields (copy : Nat)
  | evaluate {σ : Type} (copy : Nat) (env : Environment σ) (s : σ)
  | clone (copy : Nat)

namespace Operation

/-- What an operation makes of the copy at a place. A question about the program has it compiled,
unless that has been done before. -/
def change (place : Nat) (c : Condition) : Operation → Condition
  | prepare copy engine => if copy = place then (c.prepare engine).2 else c
  | program copy | fields copy | evaluate copy _ _ => if copy = place then c.remember else c
  | clone _ => c

/-- The copies after an operation. A new one comes last, with what the old one remembers. -/
def run (copies : List Condition) (op : Operation) : List Condition :=
  copies.mapIdx (fun place c => op.change place c) ++
    match op with
    | clone copy => copies[copy]?.toList
    | _ => []

end Operation

/-- The copies after some operations. -/
def after (copies : List Condition) (ops : List Operation) : List Condition :=
  ops.foldl Operation.run copies

/-- The truth of a compiled source in a world. -/
def truth {σ : Type} (compiled : Except Error Program) (env : Environment σ) (s : σ) :
    Except Error Bool × σ :=
  match compiled with
  | .ok program => program.evaluate env s
  | .error error => (.error error, s)

variable {source : String} {c c' : Condition} {copies : List Condition} {op : Operation}
  {place : Nat} {reason : Error}

/-- A copy keeps its place. -/
theorem getElem?_run (op : Operation) (h : copies[place]? = some c) :
    (op.run copies)[place]? = some (op.change place c) := by
  have hkept : (copies.mapIdx fun i c => op.change i c)[place]? = some (op.change place c) := by
    rw [List.getElem?_mapIdx, h]
    rfl
  obtain ⟨hlt, -⟩ := List.getElem?_eq_some_iff.1 hkept
  exact (List.getElem?_append_left hlt).trans hkept

theorem exists_of_mem_run (h : c' ∈ op.run copies) : ∃ place c, c ∈ copies ∧
    c' = op.change place c := by
  obtain h | h := List.mem_append.1 h
  · obtain ⟨place, hlt, rfl⟩ := List.mem_mapIdx.1 h
    exact ⟨place, _, List.getElem_mem hlt, rfl⟩
  · cases op with
    | clone copy => exact ⟨copy, c', List.mem_of_getElem? (Option.mem_toList.1 h), rfl⟩
    | prepare _ _ | program _ | fields _ | evaluate _ _ _ => cases h

/-! ## The phases of a condition -/

/-- What a condition can have become since it was made from a source: it has the source and
remembers nothing but the program of it, or it is degraded because there is none. -/
inductive Phase (source : String) : Condition → Prop where
  | sound {compiled : Option (Except Error Program)}
    (h : ∀ result, compiled = some result → result = compile source) :
    Phase source ⟨source, none, compiled⟩
  | degraded {reason : Error} (h : compile source = .error reason) : Phase source (ofReason reason)

theorem phase_ofSource (source : String) : Phase source (ofSource source) :=
  .sound fun _ h => by cases h

/-- Whichever came first, what is remembered is the program of the source. -/
theorem getD_eq_compile {compiled : Option (Except Error Program)}
    (h : ∀ result, compiled = some result → result = compile source)
    {result : Except Error Program} (hresult : result = compile source) :
    compiled.getD result = compile source := by
  cases compiled with
  | none => exact hresult
  | some remembered => exact h remembered rfl

theorem Phase.remember (h : Phase source c) : Phase source c.remember := by
  cases h with
  | degraded hreason => exact .degraded hreason
  | sound hcompiled =>
      refine .sound fun result hresult => ?_
      cases hresult
      exact getD_eq_compile hcompiled rfl

/-- Validation of a condition that is not degraded does not depend on what is remembered. -/
theorem prepare_sound (engine : Engine) (compiled : Option (Except Error Program)) :
    prepare engine ⟨source, none, compiled⟩ =
      match engine.compile source with
      | .ok program => (.ok (), withProgram ⟨source, none, compiled⟩ program)
      | .error error =>
        match engine.mode with
        | .strict => (.error error, ⟨source, none, compiled⟩)
        | .lenient => (.ok (), ofReason error) := rfl

theorem Phase.prepare (h : Phase source c) (engine : Engine) :
    Phase source (c.prepare engine).2 := by
  cases h with
  | degraded hreason => exact .degraded hreason
  | sound hcompiled =>
      rw [prepare_sound]
      cases hcompile : engine.compile source with
      | ok program =>
          obtain ⟨hprogram, -⟩ := Engine.compile_eq_ok_iff.1 hcompile
          refine .sound fun result hresult => ?_
          cases hresult
          exact getD_eq_compile hcompiled hprogram.symm
      | error reason =>
          cases hmode : engine.mode with
          | strict => exact .sound hcompiled
          | lenient =>
              rw [Engine.compile_of_lenient hmode] at hcompile
              exact .degraded hcompile

theorem Phase.change (h : Phase source c) (op : Operation) (place : Nat) :
    Phase source (op.change place c) := by
  cases op with
  | prepare copy engine =>
      rw [Operation.change]
      split
      case isTrue => exact h.prepare engine
      case isFalse => exact h
  | program copy | fields copy | evaluate copy _ _ =>
      rw [Operation.change]
      split
      case isTrue => exact h.remember
      case isFalse => exact h
  | clone copy => exact h

/-- All copies are in a phase, whatever has been done with them. -/
theorem phase_after (h : ∀ c ∈ copies, Phase source c) (ops : List Operation) :
    ∀ c ∈ after copies ops, Phase source c := by
  induction ops generalizing copies with
  | nil => exact h
  | cons op rest ih =>
      refine ih fun c' hc' => ?_
      obtain ⟨place, c, hc, rfl⟩ := exists_of_mem_run hc'
      exact (h c hc).change op place

/-! ## What a phase says -/

/-- A condition that means its source: its program, its names and its truth are those of the
compiled source. -/
structure Means (c : Condition) (source : String) : Prop where
  source_eq : c.source = source
  program_eq : c.program = compile source
  fields_eq : c.fields = (compile source).map Program.fields
  evaluate_eq {σ : Type} (env : Environment σ) (s : σ) :
    c.evaluate env s = truth (compile source) env s

/-- A condition that has no source any more and is false for a reason, which no engine minds. -/
structure IsFalse (c : Condition) (reason : Error) : Prop where
  source_eq : c.source = ""
  degraded_eq : c.degraded = some reason
  program_eq : c.program = .error reason
  evaluate_eq {σ : Type} (env : Environment σ) (s : σ) : c.evaluate env s = (.ok false, s)
  prepare_eq (engine : Engine) : c.prepare engine = (.ok (), c)

theorem Phase.means (h : Phase source c) (hsound : c.degraded = none) : c.Means source := by
  cases h with
  | degraded => cases hsound
  | sound hcompiled =>
      have hprogram := getD_eq_compile hcompiled rfl
      exact {
        source_eq := rfl
        program_eq := hprogram
        fields_eq := congrArg (Except.map Program.fields) hprogram
        evaluate_eq := fun env s => congrArg (fun compiled => truth compiled env s) hprogram }

theorem Phase.isFalse (h : Phase source c) (hdegraded : c.degraded = some reason) :
    c.IsFalse reason ∧ compile source = .error reason := by
  cases h with
  | sound => cases hdegraded
  | degraded hreason =>
      cases hdegraded
      exact ⟨⟨rfl, rfl, rfl, fun _ _ => rfl, fun _ => rfl⟩, hreason⟩

/-! ## Degradation -/

/-- Validation degrades a condition only if it is lenient and there is no program. -/
theorem Phase.isSome_degraded_prepare (h : Phase source c) (hsound : c.degraded = none)
    (engine : Engine) : (c.prepare engine).2.degraded.isSome ↔
      engine.mode = .lenient ∧ ∃ error, compile source = .error error := by
  cases h with
  | degraded => cases hsound
  | sound hcompiled =>
      rw [prepare_sound]
      cases hmode : engine.mode with
      | lenient =>
          rw [Engine.compile_of_lenient hmode]
          cases compile source <;> simp [withProgram, ofReason]
      | strict => cases engine.compile source <;> simp [withProgram]

theorem degraded_remember (c : Condition) : c.remember.degraded = c.degraded := by
  rw [remember]
  cases hdegraded : c.degraded with
  | none => rfl
  | some reason => exact hdegraded

/-- Of all operations, lenient validation of the copy itself is the one that may degrade it. -/
theorem Phase.isSome_degraded_change (h : Phase source c) (hsound : c.degraded = none)
    (op : Operation) (place : Nat) : (op.change place c).degraded.isSome ↔
      ∃ engine, op = .prepare place engine ∧ engine.mode = .lenient ∧
        ∃ error, compile source = .error error := by
  cases op with
  | prepare copy engine =>
      rw [Operation.change]
      split
      case isTrue hcopy =>
        subst hcopy
        simp [h.isSome_degraded_prepare hsound engine]
      case isFalse hcopy => simp [hsound, hcopy]
  | program copy | fields copy | evaluate copy _ _ =>
      rw [Operation.change]
      split <;> simp [degraded_remember, hsound]
  | clone copy => simp [Operation.change, hsound]

/-- A degraded copy stays what it is. -/
theorem change_of_degraded (h : c.degraded = some reason) (op : Operation) (place : Nat) :
    op.change place c = c := by
  have hprepare (engine : Engine) : (c.prepare engine).2 = c := by rw [prepare, h]
  have hremember : c.remember = c := by rw [remember, h]
  cases op <;> simp [Operation.change, hprepare, hremember]

theorem getElem?_after_of_degraded (h : c.degraded = some reason)
    (hcopy : copies[place]? = some c) (ops : List Operation) :
    (after copies ops)[place]? = some c := by
  induction ops generalizing copies with
  | nil => exact hcopy
  | cons op rest ih => exact ih ((getElem?_run op hcopy).trans
      (congrArg some (change_of_degraded h op place)))

/-- An engine that refuses a condition leaves it as it is. -/
theorem prepare_of_error {engine : Engine} {error : Error}
    (h : (c.prepare engine).1 = .error error) : (c.prepare engine).2 = c := by
  cases hdegraded : c.degraded with
  | some reason => simp only [prepare, hdegraded]
  | none =>
      simp only [prepare, hdegraded] at h ⊢
      cases hcompile : engine.compile c.source with
      | ok program => simp only [hcompile, reduceCtorEq] at h
      | error refusal =>
          cases hmode : engine.mode with
          | strict => simp only
          | lenient => simp only [hcompile, hmode, reduceCtorEq] at h

/-! ## The meaning of a condition -/

theorem after_append (copies : List Condition) (ops later : List Operation) :
    after copies (ops ++ later) = after (after copies ops) later :=
  List.foldl_append

/-- **The life of a condition does not change its meaning.** Whatever has been done with a condition
and its copies, a copy that is not degraded means its source, and the next operation degrades it
just if it is lenient validation and the source does not compile. A degraded copy is false, for the
reason that the source does not compile, and stays so. Validation that fails changes nothing. -/
theorem life_keeps_meaning (source : String) (ops : List Operation) {place : Nat} {c : Condition}
    (hcopy : (after [ofSource source] ops)[place]? = some c) :
    (c.degraded = none → c.Means source ∧
      ∀ op, ∃ c', (after [ofSource source] (ops ++ [op]))[place]? = some c' ∧
        (c'.degraded.isSome ↔ ∃ engine, op = .prepare place engine ∧ engine.mode = .lenient ∧
          ∃ error, compile source = .error error)) ∧
      (∀ reason, c.degraded = some reason → compile source = .error reason ∧ c.IsFalse reason ∧
        ∀ later, (after [ofSource source] (ops ++ later))[place]? = some c) ∧
      ∀ engine error, (c.prepare engine).1 = .error error → (c.prepare engine).2 = c := by
  have hphase : Phase source c := by
    refine phase_after (fun original horiginal => ?_) ops c (List.mem_of_getElem? hcopy)
    obtain rfl := List.mem_singleton.1 horiginal
    exact phase_ofSource source
  refine ⟨fun hsound => ⟨hphase.means hsound, fun op => ⟨op.change place c, ?_, ?_⟩⟩,
    fun reason hdegraded => ?_, fun engine error => prepare_of_error⟩
  · rw [after_append]
    exact getElem?_run op hcopy
  · exact hphase.isSome_degraded_change hsound op place
  · obtain ⟨hfalse, hreason⟩ := hphase.isFalse hdegraded
    refine ⟨hreason, hfalse, fun later => ?_⟩
    rw [after_append]
    exact getElem?_after_of_degraded hdegraded hcopy later

/-- A copy of an unfinished condition outlives the original, which a strict engine has refused, has
failed to compile and a lenient engine has degraded. -/
theorem life_of_unfinished :
    let missing := Error.malformed ⟨4, .unexpectedEnd⟩
    ∃ original copy, after [ofSource "a &&"]
        [.prepare 0 ⟨.strict, []⟩, .clone 0, .program 0, .prepare 0 ⟨.lenient, []⟩] =
        [original, copy] ∧
      original.IsFalse missing ∧ copy.Means "a &&" := by
  intro missing
  have hcopies : after [ofSource "a &&"]
      [.prepare 0 ⟨.strict, []⟩, .clone 0, .program 0, .prepare 0 ⟨.lenient, []⟩] =
      [ofReason missing, ofSource "a &&"] := rfl
  obtain ⟨-, hdegraded, -⟩ := life_keeps_meaning "a &&" _ (congrArg (·[0]?) hcopies)
  obtain ⟨hsound, -⟩ := life_keeps_meaning "a &&" _ (congrArg (·[1]?) hcopies)
  exact ⟨_, _, hcopies, (hdegraded missing rfl).2.1, (hsound rfl).1⟩

end Targeting.Condition
