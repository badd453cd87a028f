import Mathlib.Data.List.Infix
import Mathlib.Data.List.Sort

/-!
# Masking words in a text

`replace` puts a mask in the place of every occurrence of a word, from the left and without
overlaps; `replaceAll` does so for one word after the other.  The words have no letter in common
with the mask, so that a mask never helps to form a word: what is left contains none of the words.

The order of the words matters where occurrences overlap.  A text is *clean* if, read from the left,
no other word begins inside an occurrence that is met; the reading goes on behind it.  A clean text
is masked alike in every order.
-/

namespace Masking

open List

variable {α : Type}

/-! ## Words and the mask -/

/-- A word with nothing in common with the mask. -/
structure Apart (mask word : List α) : Prop where
  ne_nil : word ≠ []
  not_mem : ∀ c ∈ word, c ∉ mask

variable {mask word x t T u text rest : List α} {c : α} {order words pre post : List (List α)}

/-- Every stretch without letters of the mask at the front of one text is at the front of the
other. -/
def Below (mask t T : List α) : Prop := ∀ u, (∀ c ∈ u, c ∉ mask) → u <+: t → u <+: T

theorem Below.refl (t : List α) : Below mask t t := fun _ _ h => h

theorem Below.trans {V : List α} (h : Below mask t T) (h' : Below mask T V) : Below mask t V :=
  fun u hu hbegins => h' u hu (h u hu hbegins)

theorem Below.cons (h : Below mask t T) (c : α) : Below mask (c :: t) (c :: T) := by
  intro u hu hbegins
  cases u with
  | nil => exact nil_prefix
  | cons d u =>
    obtain ⟨rfl, htail⟩ := cons_prefix_cons.mp hbegins
    exact cons_prefix_cons.mpr
      ⟨rfl, h u (fun e he => hu e (mem_cons_of_mem _ he)) htail⟩

theorem Below.append (h : Below mask t T) (u : List α) : Below mask (u ++ t) (u ++ T) := by
  induction u with
  | nil => exact h
  | cons c u ih => exact ih.cons c

theorem Apart.not_begins (h : Apart mask word) {v : List α} (hv : v ≠ []) (hsuffix : v <:+ mask) :
    ¬ word <+: v ++ t := by
  obtain ⟨c, w, rfl⟩ := exists_cons_of_ne_nil h.ne_nil
  obtain ⟨d, v, rfl⟩ := exists_cons_of_ne_nil hv
  intro hbegins
  obtain ⟨rfl, -⟩ := cons_prefix_cons.mp hbegins
  exact h.not_mem c mem_cons_self (hsuffix.subset mem_cons_self)

theorem below_mask (hmask : mask ≠ []) : Below mask (mask ++ t) T := by
  intro u hu hbegins
  cases u with
  | nil => exact nil_prefix
  | cons c u =>
    exact absurd hbegins ((Apart.mk (by simp) hu).not_begins hmask (suffix_refl _))

/-- A word in a text that begins with letters it does not have. -/
theorem infix_of_infix_append (hx : x ≠ []) (hu : ∀ c ∈ x, c ∉ u) (h : x <:+: u ++ t) :
    x <:+: t := by
  induction u with
  | nil => exact h
  | cons c u ih =>
    obtain hbegins | hoccurs := infix_cons_iff.mp h
    · obtain ⟨d, x, rfl⟩ := exists_cons_of_ne_nil hx
      obtain ⟨rfl, -⟩ := cons_prefix_cons.mp hbegins
      exact absurd mem_cons_self (hu d mem_cons_self)
    · exact ih (fun d hd hmem => hu d hd (mem_cons_of_mem _ hmem)) hoccurs

theorem Apart.infix_of_mask (h : Apart mask x) (hoccurs : x <:+: mask ++ t) : x <:+: t :=
  infix_of_infix_append h.ne_nil h.not_mem hoccurs

/-! ## Masking a word -/

variable [DecidableEq α]

/-- The occurrences of a word are replaced, after some letters that belong to an occurrence. -/
def replaceFrom (word mask : List α) : ℕ → List α → List α
  | _, [] => []
  | 0, c :: rest =>
    if word.isPrefixOf (c :: rest) then mask ++ replaceFrom word mask (word.length - 1) rest
    else c :: replaceFrom word mask 0 rest
  | skip + 1, _ :: rest => replaceFrom word mask skip rest

/-- The occurrences of a word are replaced, from the left and without overlaps. -/
def replace (word mask text : List α) : List α := replaceFrom word mask 0 text

/-- The words are replaced one after the other. -/
def replaceAll (mask : List α) (order : List (List α)) (text : List α) : List α :=
  order.foldl (fun text word => replace word mask text) text

theorem replaceFrom_eq (word mask : List α) (skip : ℕ) (text : List α) :
    replaceFrom word mask skip text = replace word mask (text.drop skip) := by
  induction text generalizing skip with
  | nil => simp [replaceFrom, replace]
  | cons c rest ih =>
    cases skip with
    | zero => rfl
    | succ skip => simpa [replaceFrom] using ih skip

@[simp] theorem replace_nil : replace word mask [] = [] := rfl

/-- An occurrence at the front. -/
theorem replace_append (hword : word ≠ []) :
    replace word mask (word ++ rest) = mask ++ replace word mask rest := by
  obtain ⟨c, tail, rfl⟩ := exists_cons_of_ne_nil hword
  have hhit : (c :: tail).isPrefixOf (c :: (tail ++ rest)) = true :=
    isPrefixOf_iff_prefix.mpr ⟨rest, rfl⟩
  rw [cons_append, replace, replaceFrom, if_pos hhit, replaceFrom_eq]
  simp

/-- No occurrence at the front. -/
theorem replace_cons (h : ¬ word <+: c :: rest) :
    replace word mask (c :: rest) = c :: replace word mask rest := by
  have hmiss : ¬ word.isPrefixOf (c :: rest) = true := mt isPrefixOf_iff_prefix.mp h
  rw [replace, replaceFrom, if_neg hmiss, replace]

/-- Reading a text from the left, occurrence by occurrence. -/
theorem replace_induction {P : List α → Prop} (hword : word ≠ []) (nil : P [])
    (hit : ∀ rest, P rest → P (word ++ rest))
    (skip : ∀ c rest, ¬ word <+: c :: rest → P rest → P (c :: rest)) (text : List α) : P text := by
  induction hn : text.length using Nat.strong_induction_on generalizing text with
  | _ n ih =>
    cases text with
    | nil => exact nil
    | cons c rest =>
      by_cases hbegins : word <+: c :: rest
      · obtain ⟨tail, htail⟩ := hbegins
        have hlt : tail.length < n := by
          have := length_pos_of_ne_nil hword
          rw [← hn, ← htail, length_append]
          omega
        rw [← htail]
        exact hit tail (ih _ hlt tail rfl)
      · exact skip c rest hbegins (ih _ (by simp [← hn]) rest rfl)

theorem replace_eq_self (h : ¬ word <:+: text) : replace word mask text = text := by
  induction text with
  | nil => rfl
  | cons c rest ih =>
    rw [infix_cons_iff, not_or] at h
    rw [replace_cons h.1, ih h.2]

/-- A stretch in which the word does not begin. -/
theorem replace_append_of_not (h : ∀ v, v ≠ [] → v <:+ u → ¬ word <+: v ++ t) :
    replace word mask (u ++ t) = u ++ replace word mask t := by
  induction u with
  | nil => rfl
  | cons c u ih =>
    have hfront : ¬ word <+: c :: (u ++ t) := h (c :: u) (by simp) (suffix_refl _)
    rw [cons_append, replace_cons hfront, cons_append,
      ih fun v hv hsuffix => h v hv (hsuffix.trans (suffix_cons c u))]

/-! ## Nothing is left -/

section

variable (hmask : mask ≠ []) (hword : Apart mask word)
include hmask hword

/-- Masking a word brings nothing new to the front. -/
theorem below_replace (text : List α) :
    Below mask (replace word mask text) text := by
  induction text using replace_induction hword.ne_nil with
  | nil => exact Below.refl _
  | hit rest =>
    rw [replace_append hword.ne_nil]
    exact below_mask hmask
  | skip c rest hnot ih =>
    rw [replace_cons hnot]
    exact ih.cons c

/-- Masking a word leaves no occurrence of it. -/
theorem not_infix_replace (text : List α) :
    ¬ word <:+: replace word mask text := by
  induction text using replace_induction hword.ne_nil with
  | nil =>
    intro h
    exact hword.ne_nil (infix_nil.mp h)
  | hit rest ih =>
    rw [replace_append hword.ne_nil]
    exact fun h => ih (hword.infix_of_mask h)
  | skip c rest hnot ih =>
    rw [replace_cons hnot, infix_cons_iff, not_or]
    exact ⟨fun h => hnot (((below_replace hmask hword rest).cons c) _ hword.not_mem h), ih⟩

/-- Masking a word makes no occurrence of another one. -/
theorem infix_of_infix_replace (hx : Apart mask x)
    (text : List α) (h : x <:+: replace word mask text) : x <:+: text := by
  induction text using replace_induction hword.ne_nil with
  | nil => exact h
  | hit rest ih =>
    rw [replace_append hword.ne_nil] at h
    exact (ih (hx.infix_of_mask h)).trans (suffix_append word rest).isInfix
  | skip c rest hnot ih =>
    rw [replace_cons hnot, infix_cons_iff] at h
    refine infix_cons_iff.mpr (h.imp (fun hbegins => ?_) ih)
    exact ((below_replace hmask hword rest).cons c) _ hx.not_mem hbegins

end

@[simp] theorem replaceAll_nil (text : List α) : replaceAll mask [] text = text := rfl

@[simp] theorem replaceAll_cons (word : List α) (order : List (List α)) (text : List α) :
    replaceAll mask (word :: order) text = replaceAll mask order (replace word mask text) := rfl

@[simp] theorem replaceAll_empty (order : List (List α)) : replaceAll mask order [] = [] := by
  induction order with
  | nil => rfl
  | cons word order ih => rw [replaceAll_cons, replace_nil, ih]

theorem replaceAll_append (order order' : List (List α)) (text : List α) :
    replaceAll mask (order ++ order') text = replaceAll mask order' (replaceAll mask order text) :=
  foldl_append

theorem infix_of_infix_replaceAll (hmask : mask ≠ []) (horder : ∀ w ∈ order, Apart mask w)
    (hx : Apart mask x) (h : x <:+: replaceAll mask order text) : x <:+: text := by
  induction order generalizing text with
  | nil => exact h
  | cons word order ih =>
    obtain ⟨hword, horder⟩ := forall_mem_cons.mp horder
    exact infix_of_infix_replace hmask hword hx text (ih horder h)

/-- **What is left contains none of the words.** -/
theorem not_infix_replaceAll (hmask : mask ≠ []) (horder : ∀ w ∈ order, Apart mask w)
    (text : List α) : ∀ w ∈ order, ¬ w <:+: replaceAll mask order text := by
  induction order generalizing text with
  | nil => simp
  | cons word order ih =>
    obtain ⟨hword, horder⟩ := forall_mem_cons.mp horder
    refine forall_mem_cons.mpr ⟨fun h => ?_, ih horder (replace word mask text)⟩
    exact not_infix_replace hmask hword text (infix_of_infix_replaceAll hmask horder hword h)

theorem replaceAll_eq_self (h : ∀ w ∈ order, ¬ w <:+: text) :
    replaceAll mask order text = text := by
  induction order generalizing text with
  | nil => rfl
  | cons word order ih =>
    obtain ⟨hword, horder⟩ := forall_mem_cons.mp h
    rw [replaceAll_cons, replace_eq_self hword, ih horder]

/-! ## Clean texts -/

/-- Read from the left, no other word begins inside an occurrence that is met. -/
inductive Clean (words : List (List α)) : List α → Prop where
  | nil : Clean words []
  | skip {c : α} {rest : List α} (hnone : ∀ w ∈ words, ¬ w <+: c :: rest)
      (hrest : Clean words rest) : Clean words (c :: rest)
  | hit {word rest : List α} (hword : word ∈ words)
      (hother : ∀ w ∈ words, w ≠ word → ∀ v, v ≠ [] → v <:+ word → ¬ w <+: v ++ rest)
      (hrest : Clean words rest) : Clean words (word ++ rest)

/-- Every order of the words masks a text alike. -/
def Alike (mask : List α) (words : List (List α)) (text : List α) : Prop :=
  ∀ order order' : List (List α), order.Perm words → order'.Perm words →
    replaceAll mask order text = replaceAll mask order' text

section

variable (hmask : mask ≠ [])
include hmask

section

variable (horder : ∀ w ∈ order, Apart mask w)
include horder

/-- A stretch in which none of the words begins. -/
theorem replaceAll_append_of_not (h : ∀ w ∈ order, ∀ v, v ≠ [] → v <:+ u → ¬ w <+: v ++ T)
    (hbelow : Below mask t T) : replaceAll mask order (u ++ t) = u ++ replaceAll mask order t := by
  induction order generalizing t with
  | nil => rfl
  | cons word order ih =>
    obtain ⟨hword, horder⟩ := forall_mem_cons.mp horder
    obtain ⟨hnot, hrest⟩ := forall_mem_cons.mp h
    have hfront : ∀ v, v ≠ [] → v <:+ u → ¬ word <+: v ++ t := fun v hv hsuffix hbegins =>
      hnot v hv hsuffix ((hbelow.append v) word hword.not_mem hbegins)
    rw [replaceAll_cons, replace_append_of_not hfront, replaceAll_cons]
    exact ih horder hrest ((below_replace hmask hword t).trans hbelow)

theorem replaceAll_cons_of_not (h : ∀ w ∈ order, ¬ w <+: c :: t) :
    replaceAll mask order (c :: t) = c :: replaceAll mask order t := by
  refine replaceAll_append_of_not (u := [c]) hmask horder (fun w hw v hv hsuffix => ?_) (.refl t)
  obtain rfl | rfl := by simpa [suffix_cons_iff] using hsuffix
  · exact h w hw
  · exact absurd rfl hv

theorem replaceAll_mask : replaceAll mask order (mask ++ t) = mask ++ replaceAll mask order t :=
  replaceAll_append_of_not hmask horder
    (fun w hw _ hv hsuffix => (horder w hw).not_begins hv hsuffix) (.refl t)

end

theorem replaceAll_hit_first (horder : ∀ w ∈ word :: post, Apart mask w) :
    replaceAll mask (word :: post) (word ++ rest) =
      mask ++ replaceAll mask (word :: post) rest := by
  obtain ⟨hword, hpost⟩ := forall_mem_cons.mp horder
  rw [replaceAll_cons, replace_append hword.ne_nil, replaceAll_mask hmask hpost, replaceAll_cons]

/-- An occurrence that the words before it do not touch. -/
theorem replaceAll_hit (horder : ∀ w ∈ pre ++ word :: post, Apart mask w)
    (h : ∀ w ∈ pre, ∀ v, v ≠ [] → v <:+ word → ¬ w <+: v ++ rest) :
    replaceAll mask (pre ++ word :: post) (word ++ rest) =
      mask ++ replaceAll mask (pre ++ word :: post) rest := by
  obtain ⟨hpre, hpost⟩ := forall_mem_append.mp horder
  rw [replaceAll_append, replaceAll_append_of_not hmask hpre h (.refl rest),
    replaceAll_hit_first hmask hpost, replaceAll_append]

theorem alike_cons (hwords : ∀ w ∈ words, Apart mask w) (hnone : ∀ w ∈ words, ¬ w <+: c :: rest) :
    Alike mask words (c :: rest) ↔ Alike mask words rest := by
  have hcons : ∀ {order : List (List α)}, order.Perm words →
      replaceAll mask order (c :: rest) = c :: replaceAll mask order rest := fun h =>
    replaceAll_cons_of_not hmask (fun w hw => hwords w (h.mem_iff.mp hw))
      fun w hw => hnone w (h.mem_iff.mp hw)
  refine forall₄_congr fun order order' h h' => ?_
  rw [hcons h, hcons h', cons_inj_right]

theorem alike_hit (hwords : ∀ w ∈ words, Apart mask w) (hword : word ∈ words)
    (hother : ∀ w ∈ words, w ≠ word → ∀ v, v ≠ [] → v <:+ word → ¬ w <+: v ++ rest) :
    Alike mask words (word ++ rest) ↔ Alike mask words rest := by
  have hhit : ∀ {order : List (List α)}, order.Perm words →
      replaceAll mask order (word ++ rest) = mask ++ replaceAll mask order rest := by
    intro order h
    obtain ⟨pre, post, rfl, hnew⟩ := eq_append_cons_of_mem (h.mem_iff.mpr hword)
    refine replaceAll_hit hmask (fun w hw => hwords w (h.mem_iff.mp hw)) fun w hw =>
      hother w (h.mem_iff.mp (by simp [hw])) ?_
    rintro rfl
    exact hnew hw
  refine forall₄_congr fun order order' h h' => ?_
  rw [hhit h, hhit h', append_right_inj]

end

theorem Clean.alike (h : Clean words text) (hmask : mask ≠ [])
    (hwords : ∀ w ∈ words, Apart mask w) : Alike mask words text := by
  induction h with
  | nil => exact fun _ _ _ _ => by rw [replaceAll_empty, replaceAll_empty]
  | skip hnone _ ih => exact (alike_cons hmask hwords hnone).mpr ih
  | hit hword hother _ ih => exact (alike_hit hmask hwords hword hother).mpr ih

end Masking
