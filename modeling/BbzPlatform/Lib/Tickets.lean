import Mathlib.Data.List.Basic

/-!
# Tickets that are handed in once

A table holds tickets under keys that are never given out twice.  A holder who hands a ticket in
takes it out of the table.  As long as a ticket is in the table when it is handed in, no ticket is
handed in twice: a key that was handed in is in the table no more, and never again.
-/

namespace Tickets

open Function

variable {κ ρ : Type} {key : ρ → κ} {table : List ρ} {issued : List κ} {spent : ℕ → Option ρ}

/-- The books balance: what is in the table was given out, and what was handed in is in the table no
more and was handed in by one holder. -/
structure Book (key : ρ → κ) (table : List ρ) (issued : List κ) (spent : ℕ → Option ρ) : Prop where
  known : ∀ row ∈ table, key row ∈ issued
  gone : ∀ p row, spent p = some row → key row ∈ issued ∧ ∀ other ∈ table, key other ≠ key row
  once : ∀ p q row row', spent p = some row → spent q = some row' → key row = key row' → p = q

theorem Book.empty : Book key [] [] fun _ => none where
  known := by simp
  gone := by simp
  once := by simp

variable (h : Book key table issued spent)
include h

/-- A ticket is given out under a new key. -/
theorem Book.issue {row : ρ} (hnew : key row ∉ issued) :
    Book key (table ++ [row]) (key row :: issued) spent where
  known := List.forall_mem_append.mpr ⟨
    fun other hold => List.mem_cons_of_mem _ (h.known other hold),
    List.forall_mem_singleton.mpr List.mem_cons_self⟩
  gone := by
    intro p handed hspent
    obtain ⟨hknown, habsent⟩ := h.gone p handed hspent
    exact ⟨List.mem_cons_of_mem _ hknown, List.forall_mem_append.mpr ⟨habsent,
      List.forall_mem_singleton.mpr fun heq => hnew (heq ▸ hknown)⟩⟩
  once := h.once

/-- Tickets are taken out of the table. -/
theorem Book.discard (keep : ρ → Bool) :
    Book key (table.filter keep) issued spent where
  known := fun row hmem => h.known row (List.mem_of_mem_filter hmem)
  gone := fun p row hspent => ⟨(h.gone p row hspent).1, fun other hmem =>
    (h.gone p row hspent).2 other (List.mem_of_mem_filter hmem)⟩
  once := h.once

/-- **A ticket that is still in the table is handed in.** -/
theorem Book.spend [DecidableEq κ] {p : ℕ} {row : ρ} (hrow : row ∈ table) :
    Book key (table.filter fun other => key other ≠ key row) issued
      (update spent p (some row)) := by
  have hunspent : ∀ q handed, spent q = some handed → key handed ≠ key row :=
    fun q handed hspent heq => (h.gone q handed hspent).2 row hrow heq.symm
  refine ⟨fun other hmem => h.known other (List.mem_of_mem_filter hmem), ?_, ?_⟩
  · intro q handed hspent
    by_cases hq : q = p
    · rw [hq, update_self] at hspent
      cases hspent
      refine ⟨h.known row hrow, fun other hmem => ?_⟩
      simpa using List.of_mem_filter hmem
    · rw [update_of_ne hq] at hspent
      exact ⟨(h.gone q handed hspent).1, fun other hmem =>
        (h.gone q handed hspent).2 other (List.mem_of_mem_filter hmem)⟩
  · intro q q' handed handed' hspent hspent' heq
    by_cases hq : q = p <;> by_cases hq' : q' = p
    · rw [hq, hq']
    · rw [hq, update_self] at hspent
      rw [update_of_ne hq'] at hspent'
      cases hspent
      exact absurd heq.symm (hunspent q' handed' hspent')
    · rw [update_of_ne hq] at hspent
      rw [hq', update_self] at hspent'
      cases hspent'
      exact absurd heq (hunspent q handed hspent)
    · rw [update_of_ne hq] at hspent
      rw [update_of_ne hq'] at hspent'
      exact h.once q q' handed handed' hspent hspent' heq

end Tickets
