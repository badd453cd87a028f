import Mathlib.Data.Nat.Basic
import Mathlib.Logic.Relation
import Mathlib.Tactic.Common

/-!
# Processes that take turns

Several processes make moves on one state.  A move may be impossible, and a guard may forbid it.
A run is any interleaving of the moves that are possible and allowed; an invariant of the allowed
moves holds along it.

Processes are numbered where their number is not bounded.  Only finitely many of them have left
their first phase at any time, so that there is always a fresh one.
-/

namespace Turns

open Function

variable {σ π μ : Type} {step : σ → π → μ → Option σ} {allowed : σ → π → μ → Prop} {s t : σ}

/-- A process makes a move that is allowed. -/
def Turn (step : σ → π → μ → Option σ) (allowed : σ → π → μ → Prop) (s t : σ) : Prop :=
  ∃ p m, allowed s p m ∧ step s p m = some t

/-- A process makes any move. -/
abbrev AnyTurn (step : σ → π → μ → Option σ) : σ → σ → Prop := Turn step fun _ _ _ => True

/-- **An invariant of the allowed moves holds along a run.** -/
theorem Turn.invariant {P : σ → Prop}
    (hstep : ∀ s p m t, P s → allowed s p m → step s p m = some t → P t) (h : P s)
    (hrun : Relation.ReflTransGen (Turn step allowed) s t) : P t := by
  induction hrun with
  | refl => exact h
  | tail _ hturn ih =>
    obtain ⟨p, m, hallowed, hmove⟩ := hturn
    exact hstep _ p m _ ih hallowed hmove

/-- Moves in a given order. -/
def execute (step : σ → π → μ → Option σ) (s : σ) : List (π × μ) → Option σ
  | [] => some s
  | (p, m) :: moves =>
    match step s p m with
    | none => none
    | some t => execute step t moves

/-- Every move of a given order is allowed where it is made. -/
def Allows (step : σ → π → μ → Option σ) (allowed : σ → π → μ → Prop) (s : σ) :
    List (π × μ) → Prop
  | [] => True
  | (p, m) :: moves =>
    allowed s p m ∧
      match step s p m with
      | none => True
      | some t => Allows step allowed t moves

theorem run_of_allows (moves : List (π × μ)) (h : execute step s moves = some t)
    (ha : Allows step allowed s moves) : Relation.ReflTransGen (Turn step allowed) s t := by
  induction moves generalizing s with
  | nil =>
    cases h
    exact .refl
  | cons pm moves ih =>
    obtain ⟨p, m⟩ := pm
    obtain ⟨hallowed, hrest⟩ := ha
    cases hu : step s p m with
    | none => simp [execute, hu] at h
    | some u =>
      simp only [execute, hu] at h hrest
      exact .head ⟨p, m, hallowed, hu⟩ (ih h hrest)

/-- A guard on the moves alone. -/
theorem allows_of_forall {good : μ → Prop} (moves : List (π × μ))
    (h : ∀ move ∈ moves, good move.2) : Allows step (fun _ _ m => good m) s moves := by
  induction moves generalizing s with
  | nil => trivial
  | cons pm moves ih =>
    refine ⟨h pm List.mem_cons_self, ?_⟩
    split
    · trivial
    · exact ih fun move hmem => h move (List.mem_cons_of_mem _ hmem)

theorem run_of_execute {moves : List (π × μ)} (h : execute step s moves = some t) :
    Relation.ReflTransGen (AnyTurn step) s t :=
  run_of_allows moves h (allows_of_forall moves fun _ _ => trivial)

/-- **Two guards are met by the same executions** if they agree wherever an invariant holds that the
second one keeps. -/
theorem allows_congr {P : σ → Prop} {allowed' : σ → π → μ → Prop}
    (hiff : ∀ s p m t, P s → step s p m = some t → (allowed s p m ↔ allowed' s p m))
    (hstep : ∀ s p m t, P s → allowed' s p m → step s p m = some t → P t) (hs : P s)
    {moves : List (π × μ)} (h : execute step s moves = some t) :
    Allows step allowed s moves ↔ Allows step allowed' s moves := by
  induction moves generalizing s with
  | nil => exact Iff.rfl
  | cons pm moves ih =>
    obtain ⟨p, m⟩ := pm
    cases hu : step s p m with
    | none => simp [execute, hu] at h
    | some u =>
      simp only [execute, hu] at h
      simp only [Allows, hu, hiff s p m u hs hu]
      exact and_congr_right fun hallowed => ih (hstep s p m u hs hallowed hu) h

/-- What holds of every process still holds when one of them goes on. -/
theorem forall_update [DecidableEq π] {φ : Type} {Q : π → φ → Prop} {phase : π → φ} {p : π} {x : φ}
    (hx : Q p x) (h : ∀ q, Q q (phase q)) (q : π) : Q q (update phase p x q) := by
  by_cases hq : q = p
  · subst hq
    rwa [update_self]
  · rw [update_of_ne hq]
    exact h q

def FinitelyMany {φ : Type} (idle : φ) (phase : ℕ → φ) : Prop := ∃ n, ∀ q, n ≤ q → phase q = idle

/-- Moving one process leaves the rest idle. -/
theorem FinitelyMany.update {φ : Type} {idle : φ} {phase : ℕ → φ} (h : FinitelyMany idle phase)
    (p : ℕ) (x : φ) : FinitelyMany idle (update phase p x) := by
  obtain ⟨n, hn⟩ := h
  refine ⟨max n (p + 1), fun q hle => ?_⟩
  rw [update_of_ne (by omega)]
  exact hn q (by omega)

/-- There is an idle process besides a given one. -/
theorem FinitelyMany.exists_fresh {φ : Type} {idle : φ} {phase : ℕ → φ}
    (h : FinitelyMany idle phase) (p : ℕ) : ∃ q, q ≠ p ∧ phase q = idle := by
  obtain ⟨n, hn⟩ := h
  exact ⟨max n (p + 1), by omega, hn _ (by omega)⟩

end Turns
