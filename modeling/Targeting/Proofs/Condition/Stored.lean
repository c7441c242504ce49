/-
# Conditions that are stored

In JSON a condition is only its source. Unless it is degraded, what is read back from there means
the same, whatever has been done with the condition before, since its program is the one of its
source.

A degraded condition has no source any more. What is read back from it is an empty condition, which
fails instead of being false. As a guard it counts as absent, and so does the degraded condition
itself, although an action with such a guard would not run.
-/

import Targeting.Config.Action
import Targeting.Proofs.Condition.Evaluation
import Targeting.Proofs.Condition.Lifetime
import Targeting.Proofs.Json.Quoted

namespace Targeting

open Condition (Engine Operation Phase after)

/-- Prepare a guard that has been read; one without a source counts as absent. -/
def prepareOptional (engine : Engine) (guard : Option Condition) :
    Except GuardIssue (Option Condition) :=
  match guard.filter (·.source ≠ "") with
  | none => .ok none
  | some condition =>
    match condition.prepare engine with
    | (.ok (), condition) => .ok (some condition)
    | (.error error, _) => .error ⟨condition.source, error⟩

/-- The guard of an action or a trigger is prepared as it is read. -/
theorem prepareGuard_eq (engine : Engine) (source : Option String) :
    prepareGuard engine source = prepareOptional engine (source.map Condition.ofSource) := by
  cases source with
  | none => rfl
  | some source =>
      by_cases hempty : source = ""
      · rw [hempty]
        rfl
      · have hsource : (some source).filter (· ≠ "") = some source := by simp [hempty]
        have hguard : (some (Condition.ofSource source)).filter (·.source ≠ "") =
            some (Condition.ofSource source) := by simp [Condition.ofSource, hempty]
        rw [prepareGuard, hsource, Option.map_some, prepareOptional, hguard]
        rfl

theorem prepareOptional_of_source {c : Condition} (h : c.source ≠ "") (engine : Engine) :
    prepareOptional engine (some c) =
      match c.prepare engine with
      | (.ok (), c) => .ok (some c)
      | (.error error, _) => .error ⟨c.source, error⟩ := by
  have hguard : (some c).filter (·.source ≠ "") = some c := by simp [h]
  rw [prepareOptional, hguard]

theorem prepareOptional_of_empty {c : Condition} (h : c.source = "") (engine : Engine) :
    prepareOptional engine (some c) = .ok none := by
  have hguard : (some c).filter (·.source ≠ "") = none := by simp [h]
  rw [prepareOptional, hguard]

/-- A guard stays present if it has a source. -/
theorem prepareOptional_eq_none_iff {engine : Engine} {c : Condition} :
    prepareOptional engine (some c) = .ok none ↔ c.source = "" := by
  by_cases hempty : c.source = ""
  · exact iff_of_true (prepareOptional_of_empty hempty engine) hempty
  · rw [prepareOptional_of_source hempty]
    rcases c.prepare engine with ⟨error | _, c'⟩ <;> simp [hempty]

namespace Condition

variable {source : String} {c : Condition}

/-- What is read back from a condition has its source and nothing else of it. -/
theorem ofJson?_json (c : Condition) : ofJson? c.json.toUTF8.toList = some (ofSource c.source) := by
  rw [ofJson?, json, Json.Written.parse?_json]
  rfl

/-- Nothing but the source of a guard matters when it is prepared. -/
theorem Phase.prepareOptional_eq (h : Phase source c) (engine : Engine) :
    prepareOptional engine (some (ofSource c.source)) = prepareOptional engine (some c) := by
  cases h with
  | degraded => rfl
  | @sound compiled hcompiled =>
      by_cases hempty : source = ""
      · rw [prepareOptional_of_empty hempty, prepareOptional_of_empty hempty]
      · rw [prepareOptional_of_source hempty, prepareOptional_of_source hempty, ofSource,
          prepare_sound, prepare_sound]
        cases hcompile : engine.compile source with
        | ok program =>
            obtain ⟨hprogram, -⟩ := Engine.compile_eq_ok_iff.1 hcompile
            have hremembered := getD_eq_compile hcompiled hprogram.symm
            simp [withProgram, hremembered, hprogram]
        | error reason => cases engine.mode <;> rfl

/-- **What is stored of a condition means the same, unless the condition is degraded.** What is read
back is prepared like the original one in any case. If the original one is not degraded, it has the
same truth in every world, and stays present if it has a source. From a degraded condition, which is
false in every world, an empty one is read back, which fails in every world and counts as absent. -/
theorem stored_condition_means_its_source (source : String) (ops : List Operation)
    (hcopy : c ∈ after [ofSource source] ops) :
    ∃ reread, ofJson? c.json.toUTF8.toList = some reread ∧
      (∀ engine, prepareOptional engine (some reread) = prepareOptional engine (some c)) ∧
      (c.degraded = none →
        (∀ {σ : Type} (env : Environment σ) (s : σ), reread.evaluate env s = c.evaluate env s) ∧
          ∀ engine, prepareOptional engine (some reread) = .ok none ↔ source = "") ∧
      ∀ reason, c.degraded = some reason →
        (∀ {σ : Type} (env : Environment σ) (s : σ),
          c.evaluate env s = (.ok false, s) ∧ reread.evaluate env s = (.error .empty, s)) ∧
          ∀ engine, prepareOptional engine (some reread) = .ok none := by
  have hphase : Phase source c := by
    refine phase_after (fun original horiginal => ?_) ops c hcopy
    obtain rfl := List.mem_singleton.1 horiginal
    exact phase_ofSource source
  refine ⟨ofSource c.source, ofJson?_json c, hphase.prepareOptional_eq, fun hsound => ?_,
    fun reason hdegraded => ?_⟩
  · have hmeans := hphase.means hsound
    rw [hmeans.source_eq]
    refine ⟨fun env s => ?_, fun engine => prepareOptional_eq_none_iff⟩
    rw [hmeans.evaluate_eq, ((phase_ofSource source).means rfl).evaluate_eq]
  · obtain ⟨hfalse, -⟩ := hphase.isFalse hdegraded
    rw [hfalse.source_eq]
    exact ⟨fun env s => ⟨hfalse.evaluate_eq env s, rfl⟩, prepareOptional_of_empty rfl⟩

/-- An unfinished condition that a lenient engine has degraded is stored and read back. It was
false, and now it fails. A copy from before fails alike after it is stored. -/
theorem unfinished_is_stored_empty :
    let missing := Error.malformed ⟨4, .unexpectedEnd⟩
    let world := Environment.ofTables [] []
    ∃ kept degraded, after [ofSource "a &&"] [.clone 0, .prepare 1 ⟨.lenient, []⟩] =
        [kept, degraded] ∧
      (∃ reread, ofJson? kept.json.toUTF8.toList = some reread ∧
        kept.evaluate world () = (.error missing, ()) ∧
        reread.evaluate world () = (.error missing, ())) ∧
      ∃ reread, ofJson? degraded.json.toUTF8.toList = some reread ∧
        degraded.evaluate world () = (.ok false, ()) ∧
        reread.evaluate world () = (.error .empty, ()) := by
  intro missing world
  have hcopies : after [ofSource "a &&"] [.clone 0, .prepare 1 ⟨.lenient, []⟩] =
      [ofSource "a &&", ofReason missing] := rfl
  obtain ⟨kept, hkept, -, hsound, -⟩ := stored_condition_means_its_source "a &&"
    [.clone 0, .prepare 1 ⟨.lenient, []⟩] (hcopies ▸ List.mem_cons_self)
  obtain ⟨lost, hlost, -, -, hdegraded⟩ := stored_condition_means_its_source "a &&"
    [.clone 0, .prepare 1 ⟨.lenient, []⟩]
    (hcopies ▸ List.mem_cons_of_mem _ List.mem_cons_self : ofReason missing ∈ _)
  refine ⟨_, _, hcopies, ⟨kept, hkept, rfl, ?_⟩, lost, hlost, (hdegraded missing rfl).1 world ()⟩
  exact ((hsound rfl).1 world ()).trans rfl

end Condition

end Targeting
