import Mathlib.Algebra.BigOperators.Group.List.Basic
import Mathlib.Algebra.Ring.Nat

/-!
# Stack-driven graph search

A work stack and a set of visited keys: pop a key, skip it if it was visited,
otherwise mark it and push its successors.  `Search.run` is that loop with an
explicit step allowance, and `Search.closure` runs it with the allowance that
always suffices.

The allowance is exact.  Every iteration lowers `weight` by one: a visited key
shrinks the stack, and a fresh one trades its own successor list, which is no
longer owed, against the same list on the stack.

## Main definitions

* `Search.run` — the loop, `none` when the allowance runs out.
* `Search.closure` — the keys found from a start stack.
* `Search.mem_closure_iff` — the closure is exactly what the stack reaches.
-/

namespace Search

open List

variable {α : Type*} [DecidableEq α]

/-- The search loop.  The head of `stack` is its top, so pushing the successors
of a key in order leaves the last of them on top. -/
def run (succ : α → List α) : ℕ → List α → List α → Option (List α)
  | _, [], seen => some seen
  | 0, _ :: _, _ => none
  | fuel + 1, key :: stack, seen =>
    if key ∈ seen then run succ fuel stack seen
    else run succ fuel ((succ key).reverse ++ stack) (key :: seen)

/-- How many iterations are still owed: the keys on the stack, and for every
unvisited key of `keys` the successors it would push. -/
def weight (succ : α → List α) (keys stack seen : List α) : ℕ :=
  stack.length + ((keys.filter (· ∉ seen)).map fun key => (succ key).length).sum

/-- The keys a search from `stack` visits. -/
def closure (succ : α → List α) (keys stack : List α) : List α :=
  (run succ (weight succ keys stack []) stack []).getD []

/-- One edge of the searched graph. -/
def Edge (succ : α → List α) (a b : α) : Prop := b ∈ succ a

/-- Visiting a listed key settles what its successors owed. -/
private theorem owed_cons (succ : α → List α) (key : α) (seen : List α) (h : key ∉ seen) :
    ∀ keys : List α,
      ((keys.filter (· ∉ key :: seen)).map fun k => (succ k).length).sum
          + (if key ∈ keys then (succ key).length else 0)
        ≤ ((keys.filter (· ∉ seen)).map fun k => (succ k).length).sum := by
  intro keys
  induction keys with
  | nil => simp
  | cons u us ih =>
    by_cases hu : u = key
    · subst hu
      have hdrop : ((u :: us).filter (· ∉ u :: seen)) = us.filter (· ∉ u :: seen) := by simp
      have hkeep : ((u :: us).filter (· ∉ seen)) = u :: us.filter (· ∉ seen) := by simp [h]
      rw [hdrop, hkeep, if_pos mem_cons_self, map_cons, sum_cons]
      have : 0 ≤ (if u ∈ us then (succ u).length else 0) := Nat.zero_le _
      omega
    · have hmem : (key ∈ u :: us) ↔ key ∈ us := by
        simp [mem_cons, Ne.symm hu]
      by_cases hs : u ∈ seen
      · simpa [hs, hu, hmem] using ih
      · have hdrop : ((u :: us).filter (· ∉ key :: seen)) =
            u :: us.filter (· ∉ key :: seen) := by simp [hu, hs]
        have hkeep : ((u :: us).filter (· ∉ seen)) = u :: us.filter (· ∉ seen) := by simp [hs]
        rw [hdrop, hkeep, map_cons, map_cons, sum_cons, sum_cons,
          if_congr hmem rfl rfl]
        omega

variable {succ : α → List α} {keys seen stack found : List α} {key : α}

/-- A fresh key trades its successors for what they owed. -/
private theorem weight_visit (hclosed : ∀ a, a ∉ keys → succ a = [])
    (h : key ∉ seen) (stack : List α) :
    weight succ keys ((succ key).reverse ++ stack) (key :: seen) + 1
      ≤ weight succ keys (key :: stack) seen := by
  have howed := owed_cons succ key seen h keys
  have hlen : (succ key).length ≤ if key ∈ keys then (succ key).length else 0 := by
    by_cases hk : key ∈ keys
    · simp [hk]
    · simp [hk, hclosed key hk]
  simp only [weight, length_append, length_reverse, length_cons]
  omega

/-- The allowance suffices: a search never stops halfway. -/
theorem run_isSome (hclosed : ∀ a, a ∉ keys → succ a = []) :
    ∀ (fuel : ℕ) (stack seen : List α), weight succ keys stack seen ≤ fuel →
      ∃ found, run succ fuel stack seen = some found := by
  intro fuel
  induction fuel with
  | zero =>
    intro stack seen hw
    cases stack with
    | nil => exact ⟨seen, by rw [run]⟩
    | cons key stack => simp [weight] at hw
  | succ fuel ih =>
    intro stack seen hw
    cases stack with
    | nil => exact ⟨seen, by rw [run]⟩
    | cons key stack =>
      rw [run]
      by_cases hk : key ∈ seen
      · rw [if_pos hk]
        apply ih
        simp only [weight, length_cons] at hw ⊢
        omega
      · rw [if_neg hk]
        apply ih
        have := weight_visit hclosed hk stack
        omega

/-- The successors of what was visited were visited or are on the stack. -/
def Frontier (succ : α → List α) (stack seen : List α) : Prop :=
  ∀ a ∈ seen, ∀ b ∈ succ a, b ∈ seen ∨ b ∈ stack

/-- What a search finds holds what was visited and the stack, is closed under the edges, and
everything else in it is reached from the stack. -/
structure Finds (succ : α → List α) (stack seen found : List α) : Prop where
  keeps : ∀ a ∈ seen, a ∈ found
  holds : ∀ a ∈ stack, a ∈ found
  closed : ∀ a ∈ found, ∀ b ∈ succ a, b ∈ found
  reached : ∀ a ∈ found, a ∈ seen ∨ ∃ s ∈ stack, Relation.ReflTransGen (Edge succ) s a

section Loop

omit [DecidableEq α] in
theorem Frontier.finds (h : Frontier succ [] seen) : Finds succ [] seen seen := by
  refine ⟨fun a ha => ha, by simp, fun a ha b hb => ?_, fun a ha => .inl ha⟩
  simpa using h a ha b hb

omit [DecidableEq α] in
theorem Frontier.skip (h : Frontier succ (key :: stack) seen) (hk : key ∈ seen) :
    Frontier succ stack seen := by
  intro a ha b hb
  rcases h a ha b hb with hb | hb
  · exact .inl hb
  · rcases mem_cons.mp hb with rfl | hb
    · exact .inl hk
    · exact .inr hb

omit [DecidableEq α] in
theorem Frontier.visit (h : Frontier succ (key :: stack) seen) :
    Frontier succ ((succ key).reverse ++ stack) (key :: seen) := by
  intro a ha b hb
  rcases mem_cons.mp ha with rfl | ha
  · exact .inr (mem_append_left _ (mem_reverse.mpr hb))
  · rcases h a ha b hb with hb | hb
    · exact .inl (mem_cons_of_mem _ hb)
    · rcases mem_cons.mp hb with rfl | hb
      · exact .inl mem_cons_self
      · exact .inr (mem_append_right _ hb)

omit [DecidableEq α] in
theorem Finds.skip (h : Finds succ stack seen found) (hk : key ∈ seen) :
    Finds succ (key :: stack) seen found := by
  refine ⟨h.keeps, fun a ha => ?_, h.closed, fun a ha => ?_⟩
  · rcases mem_cons.mp ha with rfl | ha
    · exact h.keeps _ hk
    · exact h.holds a ha
  · rcases h.reached a ha with ha | ⟨s, hs, hr⟩
    · exact .inl ha
    · exact .inr ⟨s, mem_cons_of_mem _ hs, hr⟩

omit [DecidableEq α] in
theorem Finds.visit (h : Finds succ ((succ key).reverse ++ stack) (key :: seen) found) :
    Finds succ (key :: stack) seen found := by
  refine ⟨fun a ha => h.keeps a (mem_cons_of_mem _ ha), fun a ha => ?_, h.closed,
    fun a ha => ?_⟩
  · rcases mem_cons.mp ha with rfl | ha
    · exact h.keeps _ mem_cons_self
    · exact h.holds a (mem_append_right _ ha)
  · rcases h.reached a ha with ha | ⟨s, hs, hr⟩
    · rcases mem_cons.mp ha with rfl | ha
      · exact .inr ⟨_, mem_cons_self, .refl⟩
      · exact .inl ha
    · rcases mem_append.mp hs with hs | hs
      · exact .inr ⟨key, mem_cons_self, .head (mem_reverse.mp hs) hr⟩
      · exact .inr ⟨s, mem_cons_of_mem _ hs, hr⟩

end Loop

/-- A search that ends finds what it should. -/
theorem finds_of_run : ∀ (fuel : ℕ) (stack seen found : List α),
    run succ fuel stack seen = some found → Frontier succ stack seen →
      Finds succ stack seen found := by
  intro fuel
  induction fuel with
  | zero =>
    intro stack seen found h hfrontier
    cases stack with
    | nil =>
      cases h
      exact hfrontier.finds
    | cons key stack => cases h
  | succ fuel ih =>
    intro stack seen found h hfrontier
    cases stack with
    | nil =>
      cases h
      exact hfrontier.finds
    | cons key stack =>
      rw [run] at h
      split_ifs at h with hk
      · exact (ih _ _ _ h (hfrontier.skip hk)).skip hk
      · exact (ih _ _ _ h hfrontier.visit).visit

/-- **The search ends, and finds exactly what its stack reaches**, provided only keys of
`keys` have successors. -/
theorem exists_run (hclosed : ∀ a, a ∉ keys → succ a = []) (stack : List α) :
    ∃ found, run succ (weight succ keys stack []) stack [] = some found ∧
      ∀ a, a ∈ found ↔ ∃ s ∈ stack, Relation.ReflTransGen (Edge succ) s a := by
  obtain ⟨found, hfound⟩ := run_isSome hclosed _ stack [] (Nat.le_refl _)
  have hfinds := finds_of_run _ _ _ _ hfound (by simp [Frontier])
  refine ⟨found, hfound, fun a => ⟨fun ha => ?_, ?_⟩⟩
  · rcases hfinds.reached a ha with ha | h
    · simp at ha
    · exact h
  · rintro ⟨s, hs, hr⟩
    induction hr with
    | refl => exact hfinds.holds s hs
    | tail _ hbc ih => exact hfinds.closed _ ih _ hbc

theorem mem_closure_iff (hclosed : ∀ a, a ∉ keys → succ a = []) {a : α} :
    a ∈ closure succ keys stack ↔ ∃ s ∈ stack, Relation.ReflTransGen (Edge succ) s a := by
  obtain ⟨found, hfound, hmem⟩ := exists_run hclosed stack
  rw [closure, hfound]
  exact hmem a

end Search
