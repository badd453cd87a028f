import Mathlib.Data.List.Induction
import Mathlib.Data.List.Sort

/-!
# Grouping and sorting by a key

`group` collects the items of a list under their keys, in the order in which the keys first occur,
as a loop does that appends every item to the entry of its key.  Each key has one group, and the
group holds the items with that key in their order.

A list that is in strict order of a key is the only sorted arrangement of its items.
-/

namespace Grouping

open List

variable {α κ : Type}

variable {k : κ} {a : α} {groups : List (κ × List α)} {key : α → κ} {items : List α}

section
variable [DecidableEq κ]

/-- Append an item to the group of its key. -/
def insertGroup (k : κ) (a : α) : List (κ × List α) → List (κ × List α)
  | [] => [(k, [a])]
  | (l, as) :: groups =>
    if l = k then (l, as ++ [a]) :: groups else (l, as) :: insertGroup k a groups

/-- Collect the items of a list under their keys. -/
def group (key : α → κ) (items : List α) : List (κ × List α) :=
  items.foldl (fun groups a => insertGroup (key a) a groups) []

theorem mem_keys_insertGroup {l : κ} :
    l ∈ (insertGroup k a groups).map Prod.fst ↔ l ∈ groups.map Prod.fst ∨ l = k := by
  induction groups with
  | nil => simp [insertGroup]
  | cons g groups ih =>
    obtain ⟨m, as⟩ := g
    unfold insertGroup
    split_ifs with heq
    · subst heq
      simp only [map_cons, mem_cons]
      tauto
    · simp [ih, or_assoc]

theorem nodup_insertGroup
    (h : (groups.map Prod.fst).Nodup) : ((insertGroup k a groups).map Prod.fst).Nodup := by
  induction groups with
  | nil => simp [insertGroup]
  | cons g groups ih =>
    obtain ⟨m, as⟩ := g
    rw [map_cons, nodup_cons] at h
    unfold insertGroup
    split_ifs with hne
    · exact nodup_cons.mpr h
    · rw [map_cons, nodup_cons, mem_keys_insertGroup]
      exact ⟨not_or.mpr ⟨h.1, hne⟩, ih h.2⟩

/-- The group of the key gets the item, the others stay. -/
theorem eq_of_mem_insertGroup {P : κ → List α}
    (hnodup : (groups.map Prod.fst).Nodup) (h : ∀ g ∈ groups, g.2 = P g.1)
    (hnew : k ∉ groups.map Prod.fst → P k = []) :
    ∀ g ∈ insertGroup k a groups, g.2 = if g.1 = k then P k ++ [a] else P g.1 := by
  induction groups with
  | nil =>
    intro g hg
    cases mem_singleton.mp hg
    rw [if_pos rfl, hnew not_mem_nil]
    rfl
  | cons m groups ih =>
    obtain ⟨l, as⟩ := m
    rw [map_cons, nodup_cons] at hnodup
    have hhead : as = P l := h (l, as) mem_cons_self
    have htail : ∀ g ∈ groups, g.2 = P g.1 := fun g hg => h g (mem_cons_of_mem _ hg)
    intro g hg
    unfold insertGroup at hg
    split at hg
    next heq =>
      subst heq
      rcases mem_cons.mp hg with rfl | hg
      · rw [if_pos rfl, hhead]
      · have hne : g.1 ≠ l := fun heq => hnodup.1 (mem_map.mpr ⟨g, hg, heq⟩)
        rw [if_neg hne]
        exact htail g hg
    next hne =>
      rcases mem_cons.mp hg with rfl | hg
      · rw [if_neg hne]
        exact hhead
      · refine ih hnodup.2 htail (fun hk => hnew ?_) g hg
        rw [map_cons, mem_cons, not_or]
        exact ⟨fun heq => hne heq.symm, hk⟩

theorem nodup_group (key : α → κ) (items : List α) : ((group key items).map Prod.fst).Nodup := by
  induction items using reverseRecOn with
  | nil => exact nodup_nil
  | append_singleton items a ih =>
    rw [group, foldl_append]
    exact nodup_insertGroup ih

theorem mem_keys_group : k ∈ (group key items).map Prod.fst ↔ ∃ a ∈ items, key a = k := by
  induction items using reverseRecOn with
  | nil => simp [group]
  | append_singleton items a ih =>
    rw [group, foldl_append, foldl_cons, foldl_nil, mem_keys_insertGroup]
    rw [group] at ih
    rw [ih]
    constructor
    · rintro (⟨b, hb, rfl⟩ | rfl)
      · exact ⟨b, mem_append_left _ hb, rfl⟩
      · exact ⟨a, mem_append_right _ (mem_singleton_self a), rfl⟩
    · rintro ⟨b, hb, rfl⟩
      rcases mem_append.mp hb with hb | hb
      · exact .inl ⟨b, hb, rfl⟩
      · rw [mem_singleton.mp hb]
        exact .inr rfl

/-- **A group holds the items with its key, in their order.** -/
theorem eq_of_mem_group {g : κ × List α}
    (hg : g ∈ group key items) : g.2 = items.filter (key · = g.1) := by
  induction items using reverseRecOn generalizing g with
  | nil => cases hg
  | append_singleton items a ih =>
    have hnew (hk : key a ∉ (group key items).map Prod.fst) :
        items.filter (key · = key a) = [] := by
      rw [filter_eq_nil_iff]
      intro b hb heq
      exact hk (mem_keys_group.mpr ⟨b, hb, of_decide_eq_true heq⟩)
    rw [group, foldl_append] at hg
    have h : g.2 = if g.1 = key a then items.filter (key · = key a) ++ [a]
        else items.filter (key · = g.1) :=
      eq_of_mem_insertGroup (P := fun k => items.filter (key · = k)) (nodup_group key items)
        (fun g hg => ih hg) hnew g hg
    rw [h, filter_append]
    split
    next heq =>
      simp [heq]
    next hne =>
      have : key a ≠ g.1 := fun heq => hne heq.symm
      simp [this]

end

/-- **A strictly sorted list is the only sorted arrangement of its items.** -/
theorem eq_of_sorted_of_perm {f : α → ℕ} {l l' : List α} (hperm : l.Perm l')
    (hl : l.Pairwise (f · ≤ f ·)) (hl' : l'.Pairwise (f · < f ·)) : l = l' := by
  have hinj : (l'.map f).Nodup := pairwise_map.mpr (hl'.imp ne_of_lt)
  refine hperm.eq_of_pairwise (fun a b ha hb hab hba => ?_) hl (hl'.imp le_of_lt)
  exact inj_on_of_nodup_map hinj (hperm.subset ha) hb (le_antisymm hab hba)

end Grouping
