import Mathlib.Data.List.Basic

/-!
# Computations that keep a log and may fail

`Logged L ε α` is a result of type `Except ε α` together with the list of the
requests that were made for it.  The log is kept when the computation fails, so a
statement about it covers the request that failed.
-/

/-- A list of requests and a result. -/
structure Logged (L ε α : Type) where
  log : List L
  result : Except ε α

namespace Logged

variable {L ε α β : Type}

/-- Go on with the value, and keep the log in order. -/
protected def bind (m : Logged L ε α) (f : α → Logged L ε β) : Logged L ε β :=
  match m.result with
  | .ok a => ⟨m.log ++ (f a).log, (f a).result⟩
  | .error e => ⟨m.log, .error e⟩

instance : Monad (Logged L ε) where
  pure a := ⟨[], .ok a⟩
  bind := Logged.bind

/-- Fail without a request. -/
def fail (e : ε) : Logged L ε α := ⟨[], .error e⟩

/-- A result without a request. -/
def lift (r : Except ε α) : Logged L ε α := ⟨[], r⟩

def request (l : L) (r : Except ε α) : Logged L ε α := ⟨[l], r⟩

/-- The computation returns a value and logs the given requests. -/
def Returns (m : Logged L ε α) (ls : List L) (a : α) : Prop := m.log = ls ∧ m.result = .ok a

variable {m : Logged L ε α} {f : α → Logged L ε β} {ls : List L} {a : α} {b : β} {e : ε}
  {r : Except ε α}

@[simp] theorem returns_pure {a' : α} :
    Returns (pure a : Logged L ε α) ls a' ↔ ls = [] ∧ a = a' := by
  constructor
  · rintro ⟨hl, hr⟩
    cases hr
    exact ⟨hl.symm, rfl⟩
  · rintro ⟨rfl, rfl⟩
    exact ⟨rfl, rfl⟩

@[simp] theorem returns_fail : ¬ Returns (fail e : Logged L ε α) ls a := by
  rintro ⟨-, hr⟩
  cases hr

@[simp] theorem returns_lift : Returns (lift r : Logged L ε α) ls a ↔ ls = [] ∧ r = .ok a :=
  and_congr_left fun _ => eq_comm

@[simp] theorem returns_request {l : L} : Returns (request l r) ls a ↔ ls = [l] ∧ r = .ok a :=
  and_congr_left fun _ => eq_comm

/-- A computation without error returns its value. -/
theorem exists_returns (h : m.result.isOk = true) : ∃ a, Returns m m.log a := by
  cases hm : m.result with
  | error e => simp [hm, Except.isOk, Except.toBool] at h
  | ok a => exact ⟨a, rfl, hm⟩

/-- A sequence returns if both parts do. -/
theorem returns_bind : Returns (m >>= f) ls b ↔
    ∃ ls₁ ls₂ a, Returns m ls₁ a ∧ Returns (f a) ls₂ b ∧ ls = ls₁ ++ ls₂ := by
  have hbind : (m >>= f) = Logged.bind m f := rfl
  rw [hbind, Returns, Logged.bind]
  cases hm : m.result with
  | error e =>
    refine ⟨fun h => (by cases h.2), ?_⟩
    rintro ⟨-, -, a, ⟨-, ha⟩, -⟩
    rw [hm] at ha
    cases ha
  | ok a =>
    constructor
    · rintro ⟨rfl, hb⟩
      exact ⟨m.log, (f a).log, a, ⟨rfl, hm⟩, ⟨rfl, hb⟩, rfl⟩
    · rintro ⟨-, -, a', ⟨rfl, ha⟩, ⟨rfl, hb⟩, rfl⟩
      rw [hm] at ha
      cases ha
      exact ⟨rfl, hb⟩

theorem Returns.bind {ls₁ ls₂ : List L} (h : Returns m ls₁ a) (h' : Returns (f a) ls₂ b) :
    Returns (m >>= f) (ls₁ ++ ls₂) b :=
  returns_bind.mpr ⟨ls₁, ls₂, a, h, h', rfl⟩

/-- A sequence raises what one of its parts raises. -/
theorem result_bind_error : (m >>= f).result = .error e ↔
    m.result = .error e ∨ ∃ a, Returns m m.log a ∧ (f a).result = .error e := by
  have hbind : (m >>= f) = Logged.bind m f := rfl
  rw [hbind, Logged.bind]
  cases hm : m.result <;> simp [Returns, hm]

end Logged
