/-
# Where evaluation leads

What the world remembers changes with every question. If each question leads from a state to a
related one, and the relation is a preorder, so does the evaluation of a condition and the planning
of notifications: a run passes through no other states than those that are related to its first one.
That is a simulation again, by the same world on those states alone.
-/

import Mathlib.Order.Defs.Unbundled
import Targeting.Notification.Plan
import Targeting.Proofs.Condition.Simulation

namespace Targeting

open Condition (Environment Expr Fields)

variable {σ : Type} {rel : σ → σ → Prop} {env : Environment σ}

/-- Every question leads from a state to a related one. -/
structure Condition.Environment.Moves (rel : σ → σ → Prop) (env : Environment σ) : Prop where
  property : ∀ name s, rel s (env.property name s).2
  function : ∀ name args s, rel s (env.function name args s).2
  sessionRandom : ∀ s, rel s (env.sessionRandom s).2
  random : ∀ s, rel s (env.random s).2
  now : ∀ s, rel s (env.now s).2

section Preorder

variable [IsTrans σ rel]

/-- A question, asked of the states that are related to a first one. -/
def askedFrom {α : Type} {question : σ → α × σ} (h : ∀ s, rel s (question s).2) (first : σ)
    (s : {s // rel first s}) : α × {s // rel first s} :=
  ((question s.1).1, ⟨(question s.1).2, IsTrans.trans _ _ _ s.2 (h s.1)⟩)

/-- The world on the states that are related to a first one. -/
def Condition.Environment.Moves.from (h : env.Moves rel) (first : σ) :
    Environment {s // rel first s} where
  property name := askedFrom (h.property name) first
  function name args := askedFrom (h.function name args) first
  sessionRandom := askedFrom h.sessionRandom first
  random := askedFrom h.random first
  now := askedFrom h.now first
  zone := env.zone

theorem Condition.Environment.Moves.agreesOn_from (h : env.Moves rel) (first : σ)
    (fields : Fields) : env.AgreesOn fields (fun s t => s = t.1) (h.from first) where
  property name _ := by rintro s ⟨_, hs⟩ rfl; exact ⟨rfl, rfl⟩
  function name _ args := by rintro s ⟨_, hs⟩ rfl; exact ⟨rfl, rfl⟩
  sessionRandom := by rintro s ⟨_, hs⟩ rfl; exact ⟨rfl, rfl⟩
  random := by rintro s ⟨_, hs⟩ rfl; exact ⟨rfl, rfl⟩
  now := by rintro s ⟨_, hs⟩ rfl; exact ⟨rfl, rfl⟩
  zone := rfl

variable [Std.Refl rel]

theorem Condition.Expr.evaluate_moves (h : env.Moves rel) (e : Expr) (s : σ) :
    rel s ((e.evaluate env).run s).2 := by
  have hsame := (Expr.evaluate_simulates (e := e) (h.agreesOn_from s _) s ⟨s, refl s⟩ rfl).2
  rw [hsame]
  exact Subtype.property _

theorem Condition.evaluate_moves (h : env.Moves rel) (condition : Condition) (s : σ) :
    rel s (condition.evaluate env s).2 := by
  rw [evaluate]
  split
  case h_1 => exact refl s
  case h_2 =>
    split
    case h_1 program _ =>
      have hroot := Expr.evaluate_moves h program.root s
      rw [Program.evaluate]
      split
      all_goals
        rename_i hrun
        rwa [hrun] at hroot
    case h_2 => exact refl s

/-! ## Planning -/

namespace Notification

theorem holds_moves (h : env.Moves rel) (condition : Condition) (s : σ) :
    rel s (holds env condition s).2 := by
  have hmoves := condition.evaluate_moves h s
  rw [holds]
  split
  all_goals
    rename_i hrun
    rwa [hrun] at hmoves

theorem maySchedule_moves (h : env.Moves rel) (n : Notification) (s : σ) :
    rel s (n.maySchedule env s).2 := by
  rw [maySchedule]
  split
  · exact refl s
  · exact holds_moves h _ s

theorem dueTime?_moves (h : env.Moves rel) (n : Notification) (store : Store)
    (now : Calendar.Instant) (s : σ) : rel s (n.dueTime? store env now s).2 := by
  have hmoves := maySchedule_moves h n s
  rw [dueTime?]
  split
  · exact refl s
  · split
    all_goals
      rename_i hrun
      rwa [hrun] at hmoves

theorem awaitMoment_moves (h : env.Moves rel) (n : Notification) (due now : Calendar.Instant)
    (zone : Calendar.Zone) (s : σ) : rel s (n.awaitMoment env due now zone s).2 := by
  rw [awaitMoment]
  split
  case h_1 => exact refl s
  case h_2 ideal _ =>
    have hmoves : rel s (if n.isWaiting ideal due now zone then holds env ideal.condition s
        else (false, s)).2 := by
      split
      · exact holds_moves h _ s
      · exact refl s
    dsimp only
    generalize (if n.isWaiting ideal due now zone then holds env ideal.condition s
      else (false, s)) = found at hmoves ⊢
    split <;> exact hmoves

theorem delivery_moves (h : env.Moves rel) (n : Notification) (store : Store)
    (now : Calendar.Instant) (zone : Calendar.Zone) (s : σ) :
    rel s (n.delivery store env now zone s).2 := by
  have hdue := dueTime?_moves h n store now s
  rw [delivery]
  split
  case h_1 hrun => rwa [hrun] at hdue
  case h_2 due s' hrun =>
    rw [hrun] at hdue
    exact IsTrans.trans _ _ _ hdue (awaitMoment_moves h n due now zone s')

end Notification

theorem Plan.make_moves (h : env.Moves rel) (store : Store) (now : Calendar.Instant)
    (zone : Calendar.Zone) (notifications : List Notification) (s : σ) :
    rel s (make store env now zone notifications s).2 := by
  induction notifications generalizing s with
  | nil => exact refl s
  | cons n rest ih => exact IsTrans.trans _ _ _ (n.delivery_moves h store now zone s) (ih _)

end Preorder

end Targeting
