import Mathlib.Data.List.Forall2

/-!
# Rows of a table

A table is a list of rows.  An update maps the rows that meet its condition and leaves the others;
what there is in the table afterwards is what there was, up to that.

## Main results

* `exists_mem_update_iff` — the rows after an update.
* `exists_of_forall₂` — the row that a row of a related table comes from.
* `mem_of_lookup` — a value that is found under a key.
* `one_lt_length_iff` — more than one row, if the keys are distinct.
-/

namespace Rows

variable {α : Type} {p : α → Prop} [DecidablePred p] {f : α → α} {q : α → Prop} {rows : List α}

theorem exists_mem_update_iff : (∃ y ∈ rows.map (fun x => if p x then f x else x), q y) ↔
    ∃ x ∈ rows, if p x then q (f x) else q x := by
  simp [apply_ite q]

/-- There is more than one row exactly if there is one with another key than a given one. -/
theorem one_lt_length_iff {β : Type} {key : α → β} (hnodup : (rows.map key).Nodup) {x : α}
    (hx : x ∈ rows) : 1 < rows.length ↔ ∃ y ∈ rows, key y ≠ key x := by
  cases rows with
  | nil => cases hx
  | cons a rest =>
    cases rest with
    | nil => simp [List.mem_singleton.mp hx]
    | cons b rest =>
      refine iff_of_true (by simp) ?_
      by_cases ha : key a = key x
      · refine ⟨b, by simp, fun hb => ?_⟩
        simp [ha, hb] at hnodup
      · exact ⟨a, by simp, ha⟩

theorem exists_of_forall₂ {β : Type} {R : α → β → Prop} {as : List α} {bs : List β}
    (h : List.Forall₂ R as bs) {b : β} (hb : b ∈ bs) : ∃ a ∈ as, R a b := by
  induction h with
  | nil => cases hb
  | cons hab _ ih =>
    rcases List.mem_cons.mp hb with rfl | hb
    · exact ⟨_, List.mem_cons_self, hab⟩
    · obtain ⟨a, ha, h⟩ := ih hb
      exact ⟨a, List.mem_cons_of_mem _ ha, h⟩

theorem mem_of_lookup {β : Type} {rows : List (String × β)} {key : String} {value : β}
    (h : rows.lookup key = some value) : (key, value) ∈ rows := by
  obtain ⟨before, after, heq, -⟩ := List.lookup_eq_some_iff.mp h
  rw [heq]
  exact List.mem_append_right _ List.mem_cons_self

end Rows
