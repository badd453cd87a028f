import Mathlib.Tactic.Common

/-!
# Computations that may raise an error

A computation of type `Except ε α` returns a value or raises an error.  A sequence returns exactly
if each of its parts does, and a check lets it go on.
-/

namespace Raising

theorem bind_eq_ok {ε α β : Type} {x : Except ε α} {f : α → Except ε β} {b : β} :
    (x >>= f) = .ok b ↔ ∃ a, x = .ok a ∧ f a = .ok b := by
  cases x <;> simp [bind, Except.bind]

theorem ite_eq_ok {ε α : Type} {c : Prop} [Decidable c] {e : ε} {x : Except ε α} {a : α} :
    (if c then .error e else x) = .ok a ↔ ¬ c ∧ x = .ok a := by
  split <;> simp [*]

end Raising
