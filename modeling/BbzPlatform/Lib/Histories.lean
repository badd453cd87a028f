import Mathlib.Logic.Basic

/-!
# Histories

Events change a state one after the other.  A condition on events is asked for at every event of a
history, in the state in which it happens.
-/

namespace Histories

variable {σ ε : Type} {step : σ → ε → σ} {P Q : σ → ε → Prop} {I : σ → Prop}

/-- Every event of a history meets a condition where it happens. -/
def Along (step : σ → ε → σ) (P : σ → ε → Prop) : σ → List ε → Prop
  | _, [] => True
  | s, e :: events => P s e ∧ Along step P (step s e) events

/-- **Two conditions are met along the same histories** if they agree wherever an invariant holds
that the second one keeps. -/
theorem along_congr (hiff : ∀ s e, I s → (P s e ↔ Q s e))
    (hstep : ∀ s e, I s → Q s e → I (step s e)) {s : σ} (hs : I s) (events : List ε) :
    Along step P s events ↔ Along step Q s events := by
  induction events generalizing s with
  | nil => exact Iff.rfl
  | cons e events ih =>
    simp only [Along, hiff s e hs]
    exact and_congr_right fun hq => ih (hstep s e hs hq)

theorem Along.invariant (hstep : ∀ s e, I s → P s e → I (step s e)) {s : σ} (hs : I s)
    {events : List ε} (h : Along step P s events) : I (events.foldl step s) := by
  induction events generalizing s with
  | nil => exact hs
  | cons e events ih => exact ih (hstep s e hs h.1) h.2

end Histories
