import BbzPlatform.Lib.Masking
import Mathlib.Order.WellFounded

/-!
# Where the order of masking matters

A text that every order of the words masks alike is clean.  At the first occurrence that another
word disturbs, two orders are compared.  If the other word begins inside the shortest word found
there and is not found there itself, masking it first leaves the first letter as it is.  Otherwise
a longer word is found at the same place.  Masking it first and masking in ascending length go on
at different places of the text behind equal masks; if what they make of the rest were equal, some
word that is masked in ascending order would contain a shorter one.
-/

namespace Masking

open List

variable {α : Type}

/-! ## Pieces -/

/-- A letter that is left, or a word that is masked. -/
inductive Piece (α : Type) where
  | plain (c : α)
  | masked (word : List α)

def render (mask : List α) : List (Piece α) → List α
  | [] => []
  | .plain c :: pieces => c :: render mask pieces
  | .masked _ :: pieces => mask ++ render mask pieces

/-- The text as it was. -/
def source : List (Piece α) → List α
  | [] => []
  | .plain c :: pieces => c :: source pieces
  | .masked word :: pieces => word ++ source pieces

variable {d : α} {body mask out u x s z r word p y rest v : List α} {pieces : List (Piece α)}
  {words order order' : List (List α)}

@[simp] theorem source_map_plain (u : List α) (pieces : List (Piece α)) :
    source (u.map .plain ++ pieces) = u ++ source pieces := by
  induction u with
  | nil => rfl
  | cons c u ih => simp [source, ih]

@[simp] theorem render_map_plain (u : List α) : render mask (u.map .plain) = u := by
  induction u with
  | nil => rfl
  | cons c u ih => simp [render, ih]

/-- Letters that no mask begins with stand for themselves. -/
theorem eq_plain_of_render (hu : d ∉ u) (h : render (d :: body) pieces = u ++ out) :
    ∃ rest, pieces = u.map .plain ++ rest ∧ render (d :: body) rest = out := by
  induction u generalizing pieces with
  | nil => exact ⟨pieces, rfl, h⟩
  | cons c u ih =>
    rw [mem_cons, not_or] at hu
    cases pieces with
    | nil => simp [render] at h
    | cons piece pieces =>
      cases piece with
      | masked word =>
        have hhead : d = c := by simpa [render] using congrArg head? h
        exact absurd hhead hu.1
      | plain e =>
        obtain ⟨rfl, htail⟩ := cons.inj h
        obtain ⟨rest, rfl, hrest⟩ := ih hu.2 htail
        exact ⟨rest, rfl, hrest⟩

def MaskedIn (pieces : List (Piece α)) (word : List α) : Prop := Piece.masked word ∈ pieces

/-- Two words at the front of one text. -/
theorem append_cases (h : x ++ s = u ++ (z ++ r)) :
    (∃ b, x = u ++ z ++ b) ∨ ∃ v, v ≠ [] ∧ s = v ++ r := by
  rw [← append_assoc] at h
  obtain ⟨v, huz, hs⟩ | ⟨b, hx, -⟩ := append_eq_append_iff.mp h
  · by_cases hv : v = []
    · exact .inl ⟨[], by simp [huz, hv]⟩
    · exact .inr ⟨v, hv, hs⟩
  · exact .inl ⟨b, hx⟩

/-- Two words without common letters at the front of one text. -/
theorem append_apart (hz : z ≠ []) (hapart : ∀ c ∈ z, c ∉ x)
    (h : x ++ s = u ++ (z ++ r)) : ∃ v, v ≠ [] ∧ s = v ++ r := by
  obtain ⟨v, -, hs⟩ | ⟨v, hx, hs⟩ := append_eq_append_iff.mp h
  · exact ⟨v ++ z, by simp [hz], by simp [hs]⟩
  · cases v with
    | nil => exact ⟨z, hz, by simpa using hs.symm⟩
    | cons e v =>
      obtain ⟨c, z, rfl⟩ := exists_cons_of_ne_nil hz
      obtain ⟨rfl, -⟩ := cons.inj hs
      exact absurd (by simp [hx]) (hapart c mem_cons_self)

/-- **Two readings of one text that are shifted against each other**: some word that is masked in
the first contains one that is masked in the second, and does not begin with it. -/
theorem exists_contained (hbody : d ∉ body) {A B : List (Piece α)}
    (hA : ∀ w, MaskedIn A w → Apart (d :: body) w) (hB : ∀ w, MaskedIn B w → Apart (d :: body) w)
    (hrender : render (d :: body) A = render (d :: body) B)
    (hsource : source A = u ++ source B) (hu : u ≠ []) :
    ∃ x z a b, MaskedIn A x ∧ MaskedIn B z ∧ a ≠ [] ∧ x = a ++ z ++ b := by
  induction hn : A.length using Nat.strong_induction_on generalizing A B u with
  | _ n ih =>
    -- what is found behind equal pieces is found in the whole
    have hrest : ∀ {A' B' : List (Piece α)} {v : List α}, A'.length < n → A' ⊆ A → B' ⊆ B →
        render (d :: body) A' = render (d :: body) B' → v ≠ [] ∧ source A' = v ++ source B' →
        ∃ x z a b, MaskedIn A x ∧ MaskedIn B z ∧ a ≠ [] ∧ x = a ++ z ++ b := by
      intro A' B' v hlt hsubA hsubB hrender' ⟨hv, hsource'⟩
      obtain ⟨x, z, a, b, hx, hz, ha, heq⟩ := ih _ hlt (fun w hw => hA w (hsubA hw))
        (fun w hw => hB w (hsubB hw)) hrender' hsource' hv rfl
      exact ⟨x, z, a, b, hsubA hx, hsubB hz, ha, heq⟩
    cases A with
    | nil => exact absurd (append_eq_nil_iff.mp hsource.symm).1 hu
    | cons piece A =>
      cases B with
      | nil => cases piece <;> simp [render] at hrender
      | cons piece' B =>
        cases piece with
        | plain c =>
          cases piece' with
          | plain c' =>
            obtain ⟨rfl, htail⟩ := cons.inj hrender
            obtain ⟨e, v, rfl⟩ := exists_cons_of_ne_nil hu
            obtain ⟨rfl, hsource⟩ := cons.inj hsource
            refine hrest (v := v ++ [c]) (by simp [← hn]) (subset_cons_self _ _)
              (subset_cons_self _ _) htail ⟨by simp, ?_⟩
            simpa [source] using hsource
          | masked z =>
            -- the letters spell the mask
            obtain ⟨rfl, htail⟩ := cons.inj hrender
            obtain ⟨A, rfl, hbehind⟩ := eq_plain_of_render hbody htail
            have hz := hB z mem_cons_self
            have hshift : (c :: body) ++ source A = u ++ (z ++ source B) := by
              simpa [source] using hsource
            obtain ⟨v, hv⟩ := append_apart hz.ne_nil hz.not_mem hshift
            refine hrest ?_ ?_ (subset_cons_self _ _) hbehind hv
            · simp only [← hn, length_cons, length_append, length_map]
              omega
            · exact fun _ hmem => mem_cons_of_mem _ (mem_append_right _ hmem)
        | masked x =>
          cases piece' with
          | plain c =>
            obtain ⟨rfl, htail⟩ := cons.inj hrender
            obtain ⟨B, rfl, hbehind⟩ := eq_plain_of_render hbody htail.symm
            have hx := hA x mem_cons_self
            have hshift : x ++ source A = u ++ ((d :: body) ++ source B) := by
              simpa [source] using hsource
            obtain ⟨v, hv⟩ := append_apart (by simp)
              (fun e he hmem => hx.not_mem e hmem he) hshift
            refine hrest (by simp [← hn]) (subset_cons_self _ _) ?_ hbehind.symm hv
            exact fun _ hmem => mem_cons_of_mem _ (mem_append_right _ hmem)
          | masked z =>
            have htail : render (d :: body) A = render (d :: body) B :=
              append_cancel_left hrender
            obtain ⟨b, hx⟩ | ⟨v, hv⟩ := append_cases hsource
            · exact ⟨x, z, u, b, mem_cons_self, mem_cons_self, hu, hx⟩
            · exact hrest (by simp [← hn]) (subset_cons_self _ _)
                (subset_cons_self _ _) htail hv

/-! ## Lengths -/

/-- No shorter word is left in a word. -/
def NoShorter (order : List (List α)) (x : List α) : Prop :=
  ∀ z ∈ order, z.length < x.length → ¬ z <:+: x

/-- Words in ascending length. -/
def Ascending (order : List (List α)) : Prop := order.Pairwise fun w w' => w.length ≤ w'.length

theorem exists_ascending (words : List (List α)) : ∃ order, order.Perm words ∧ Ascending order := by
  refine ⟨words.mergeSort fun w w' => decide (w.length ≤ w'.length), mergeSort_perm _ _, ?_⟩
  have hsorted : (words.mergeSort fun w w' => decide (w.length ≤ w'.length)).Pairwise
      fun w w' => decide (w.length ≤ w'.length) = true :=
    pairwise_mergeSort (fun _ _ _ h h' => by simp at h h' ⊢; omega)
      (fun _ _ => by simp; omega) words
  exact hsorted.imp fun h => by simpa using h

def Shortest (words : List (List α)) (p rest : List α) : Prop :=
  ∀ w ∈ words, w <+: p ++ rest → p.length ≤ w.length

theorem exists_shortest {text : List α} (h : ¬ ∀ w ∈ words, ¬ w <+: text) :
    ∃ p rest, text = p ++ rest ∧ p ∈ words ∧ Shortest words p rest := by
  push Not at h
  obtain ⟨p, ⟨hp, rest, rfl⟩, hmin⟩ :=
    (measure length).wf.has_min {w | w ∈ words ∧ w <+: text} h
  exact ⟨p, rest, rfl, hp, fun w hw hfront => not_lt.mp (hmin w ⟨hw, hfront⟩)⟩

/-! ## What is masked in an order -/

section Marking

variable [DecidableEq α]

/-- Masking a word masks nothing but occurrences of it. -/
theorem exists_replace (hword : Apart (d :: body) word) (pieces : List (Piece α)) :
    ∃ pieces', source pieces' = source pieces ∧
      render (d :: body) pieces' = replace word (d :: body) (render (d :: body) pieces) ∧
      ∀ x, MaskedIn pieces' x →
        MaskedIn pieces x ∨ x = word ∧ word <:+: render (d :: body) pieces := by
  induction hn : pieces.length using Nat.strong_induction_on generalizing pieces with
  | _ n ih =>
    cases pieces with
    | nil => exact ⟨[], rfl, rfl, fun x hx => absurd hx not_mem_nil⟩
    | cons piece pieces =>
      cases piece with
      | masked w =>
        obtain ⟨ps, hsource, hrender, hmasked⟩ := ih _ (by simp [← hn]) pieces rfl
        have hmask : replace word (d :: body) ((d :: body) ++ render (d :: body) pieces) =
            (d :: body) ++ replace word (d :: body) (render (d :: body) pieces) :=
          replace_append_of_not fun v hv hsuffix => hword.not_begins hv hsuffix
        refine ⟨.masked w :: ps, by simp [source, hsource], ?_, fun x hx => ?_⟩
        · rw [render, render, hmask, hrender]
        · obtain heq | hx := mem_cons.mp hx
          · exact .inl (heq ▸ mem_cons_self)
          · exact (hmasked x hx).imp (mem_cons_of_mem _) fun ⟨hxw, hoccurs⟩ =>
              ⟨hxw, hoccurs.trans (suffix_append _ _).isInfix⟩
      | plain c =>
        by_cases hbegins : word <+: c :: render (d :: body) pieces
        · obtain ⟨out, hout⟩ := hbegins
          have hd : d ∉ word := fun hmem => hword.not_mem d hmem mem_cons_self
          have hfront : render (d :: body) (.plain c :: pieces) = word ++ out := hout.symm
          obtain ⟨rest, hpieces, rfl⟩ := eq_plain_of_render hd hfront
          have hlt : rest.length < n := by
            have := length_pos_of_ne_nil hword.ne_nil
            rw [← hn, hpieces, length_append, length_map]
            omega
          obtain ⟨ps, hsource, hrender, hmasked⟩ := ih _ hlt rest rfl
          rw [hpieces] at hfront ⊢
          refine ⟨.masked word :: ps, by simp [source, hsource], ?_, fun x hx => ?_⟩
          · rw [hfront, replace_append hword.ne_nil, render, hrender]
          · rw [hfront]
            obtain heq | hx := mem_cons.mp hx
            · cases heq
              exact .inr ⟨rfl, (prefix_append _ _).isInfix⟩
            · exact (hmasked x hx).imp (mem_append_right _) fun ⟨hxw, hoccurs⟩ =>
                ⟨hxw, hoccurs.trans (suffix_append _ _).isInfix⟩
        · obtain ⟨ps, hsource, hrender, hmasked⟩ := ih _ (by simp [← hn]) pieces rfl
          refine ⟨.plain c :: ps, by simp [source, hsource], ?_, fun x hx => ?_⟩
          · rw [render, render, replace_cons hbegins, hrender]
          · obtain heq | hx := mem_cons.mp hx
            · cases heq
            · exact (hmasked x hx).imp (mem_cons_of_mem _) fun ⟨hxw, hoccurs⟩ =>
                ⟨hxw, hoccurs.trans (suffix_cons _ _).isInfix⟩

theorem exists_replaceAll (horder : ∀ w ∈ order, Apart (d :: body) w) (text : List α) :
    ∃ pieces, source pieces = text ∧
      render (d :: body) pieces = replaceAll (d :: body) order text ∧
      ∀ x, MaskedIn pieces x → x ∈ order ∧ (Ascending order → NoShorter order x) := by
  induction order using reverseRecOn with
  | nil =>
    refine ⟨text.map .plain, by simpa [source] using source_map_plain text [], by simp, ?_⟩
    intro x hx
    simp [MaskedIn] at hx
  | append_singleton done word ih =>
    have hdone : ∀ w ∈ done, Apart (d :: body) w := fun w hw => horder w (by simp [hw])
    obtain ⟨ps, hsource, hrender, hmasked⟩ := ih hdone
    obtain ⟨ps', hsource', hrender', hmasked'⟩ := exists_replace (horder word (by simp)) ps
    refine ⟨ps', hsource'.trans hsource, ?_, fun x hx => ?_⟩
    · rw [hrender', hrender, replaceAll_append, replaceAll_cons, replaceAll_nil]
    · obtain hx | ⟨rfl, hoccurs⟩ := hmasked' x hx
      · obtain ⟨hmem, hshort⟩ := hmasked x hx
        refine ⟨by simp [hmem], fun hsorted z hz hlt => ?_⟩
        obtain ⟨hsorted, -, hlast⟩ := pairwise_append.mp hsorted
        obtain hz | hz := mem_append.mp hz
        · exact hshort hsorted z hz hlt
        · have hle := hlast x hmem word (by simp)
          rw [mem_singleton.mp hz] at hlt
          omega
      · refine ⟨by simp, fun _ z hz hlt hzx => ?_⟩
        have hz : z ∈ done := by
          obtain hz | hz := mem_append.mp hz
          · exact hz
          · rw [mem_singleton.mp hz] at hlt
            omega
        rw [hrender] at hoccurs
        exact not_infix_replaceAll (by simp) hdone text z hz (hzx.trans hoccurs)

end Marking

/-! ## Two orders -/

section Orders

variable [DecidableEq α]

/-- A word that is disturbed is not at the front any more. -/
theorem not_prefix_replace (hx : Apart (d :: body) x) {a : List α} (hv : v ≠ [])
    (hav : ∀ c ∈ a ++ v, c ∉ d :: body) (hbegins : x <+: v ++ rest) :
    ¬ a ++ v <+: replace x (d :: body) (a ++ v ++ rest) := by
  induction a with
  | nil =>
    obtain ⟨tail, htail⟩ := hbegins
    rw [nil_append, ← htail, replace_append hx.ne_nil]
    exact (Apart.mk hv hav).not_begins (by simp) (suffix_refl _)
  | cons c a ih =>
    by_cases hfront : x <+: c :: (a ++ v ++ rest)
    · obtain ⟨tail, htail⟩ := hfront
      rw [cons_append, cons_append, ← htail, replace_append hx.ne_nil]
      exact (Apart.mk (by simp) hav).not_begins (by simp) (suffix_refl _)
    · rw [cons_append, cons_append, replace_cons hfront, cons_prefix_cons]
      exact fun h => ih (fun e he => hav e (mem_cons_of_mem _ he)) h.2

/-- A word that begins inside the shortest one and is masked first leaves the first letter. -/
theorem first_letter_left (hwords : ∀ w ∈ words, Apart (d :: body) w) (hp : p ∈ words)
    (hshort : Shortest words p rest) (hx : x ∈ words) (hfront : ¬ x <+: p ++ rest)
    (hv : v ≠ []) (hsuffix : v <:+ p) (hbegins : x <+: v ++ rest) (horder : order ⊆ words) :
    ∃ c ∈ p, ∃ t, replaceAll (d :: body) (x :: order) (p ++ rest) = c :: t := by
  obtain ⟨c, tail, hc⟩ := exists_cons_of_ne_nil (hwords p hp).ne_nil
  obtain ⟨a, rfl⟩ := hsuffix
  have hfirst : replace x (d :: body) (a ++ v ++ rest) =
      c :: replace x (d :: body) (tail ++ rest) := by
    rw [hc] at hfront ⊢
    exact replace_cons hfront
  have hnone : ∀ w ∈ order, ¬ w <+: c :: replace x (d :: body) (tail ++ rest) := by
    intro w hw hwt
    rw [← hfirst] at hwt
    have hwfront := below_replace (by simp) (hwords x hx) _ w (hwords w (horder hw)).not_mem hwt
    have hpw := prefix_of_prefix_length_le (prefix_append (a ++ v) rest) hwfront
      (hshort w (horder hw) hwfront)
    exact not_prefix_replace (hwords x hx) hv (hwords _ hp).not_mem hbegins (hpw.trans hwt)
  refine ⟨c, by simp [hc], replaceAll (d :: body) order (replace x (d :: body) (tail ++ rest)), ?_⟩
  rw [replaceAll_cons, hfirst,
    replaceAll_cons_of_not (by simp) (fun w hw => hwords w (horder hw)) hnone]

section

variable (hbody : d ∉ body) (hwords : ∀ w ∈ words, Apart (d :: body) w)
include hbody hwords

/-- A longer word at the place of the shortest one: masking it first, and masking in ascending
length, have different results. -/
theorem longer_word_matters
    (hp : p ∈ words) (hshort : Shortest words p rest)
    (hinside : ∀ w ∈ words, ∀ v, v ≠ [] → v <:+ p → w <+: v ++ rest → w <+: p ++ rest)
    (hy : y ∈ words) (hfront : y <+: p ++ rest) (hne : y ≠ p) :
    ∃ order order', order.Perm words ∧ order'.Perm words ∧
      replaceAll (d :: body) order (p ++ rest) ≠ replaceAll (d :: body) order' (p ++ rest) := by
  obtain ⟨order, hperm, hsorted⟩ := exists_ascending words
  have hapart : ∀ w ∈ order, Apart (d :: body) w := fun w hw => hwords w (hperm.mem_iff.mp hw)
  have hperm' : (y :: words.erase y).Perm words := (perm_cons_erase hy).symm
  have hapart' : ∀ w ∈ y :: words.erase y, Apart (d :: body) w :=
    fun w hw => hwords w (hperm'.mem_iff.mp hw)
  -- the longer word ends behind the shortest one
  obtain ⟨z, rfl⟩ := prefix_of_prefix_length_le (prefix_append p rest) hfront
    (hshort y hy hfront)
  obtain ⟨behind, rfl⟩ := (prefix_append_right_inj p).mp hfront
  have hz : z ≠ [] := by
    rintro rfl
    simp at hne
  have hascending : replaceAll (d :: body) order (p ++ (z ++ behind)) =
      (d :: body) ++ replaceAll (d :: body) order (z ++ behind) := by
    obtain ⟨pre, post, rfl, hnew⟩ := eq_append_cons_of_mem (hperm.mem_iff.mpr hp)
    refine replaceAll_hit (by simp) hapart fun w hw v hv hsuffix hbegins => ?_
    have hmem : w ∈ words := hperm.mem_iff.mp (by simp [hw])
    have hwfront := hinside w hmem v hv hsuffix hbegins
    have hle : w.length ≤ p.length := (pairwise_append.mp hsorted).2.2 w hw p (by simp)
    have heq : w = p := IsPrefix.eq_of_length
      (prefix_of_prefix_length_le hwfront (prefix_append p _) hle)
      (le_antisymm hle (hshort w hmem hwfront))
    exact hnew (heq ▸ hw)
  have hlonger : replaceAll (d :: body) ((p ++ z) :: words.erase (p ++ z)) (p ++ (z ++ behind)) =
      (d :: body) ++ replaceAll (d :: body) ((p ++ z) :: words.erase (p ++ z)) behind := by
    rw [← append_assoc]
    exact replaceAll_hit_first (by simp) hapart'
  refine ⟨order, _, hperm, hperm', fun heq => ?_⟩
  rw [hascending, hlonger] at heq
  obtain ⟨A, hsourceA, hrenderA, hA⟩ := exists_replaceAll hapart (z ++ behind)
  obtain ⟨B, hsourceB, hrenderB, hB⟩ := exists_replaceAll hapart' behind
  obtain ⟨w, w', a, b, hw, hw', ha, rfl⟩ := exists_contained (u := z) hbody
    (fun w hw => hapart w (hA w hw).1) (fun w hw => hapart' w (hB w hw).1)
    (by rw [hrenderA, hrenderB, append_cancel_left heq]) (by rw [hsourceA, hsourceB]) hz
  have hmem : w' ∈ order := hperm.mem_iff.mpr (hperm'.mem_iff.mp (hB w' hw').1)
  refine (hA _ hw).2 hsorted w' hmem ?_ ⟨a, b, rfl⟩
  have := length_pos_of_ne_nil ha
  simp only [length_append]
  omega

theorem clean_of_alike
    (text : List α) (h : Alike (d :: body) words text) : Clean words text := by
  induction hn : text.length using Nat.strong_induction_on generalizing text with
  | _ n ih =>
    by_cases hnone : ∀ w ∈ words, ¬ w <+: text
    · cases text with
      | nil => exact .nil
      | cons c rest =>
        exact .skip hnone
          (ih _ (by simp [← hn]) rest ((alike_cons (by simp) hwords hnone).mp h) rfl)
    · obtain ⟨p, rest, rfl, hp, hshort⟩ := exists_shortest hnone
      by_cases hother : ∀ w ∈ words, w ≠ p → ∀ v, v ≠ [] → v <:+ p → ¬ w <+: v ++ rest
      · have hlt : rest.length < n := by
          have := length_pos_of_ne_nil (hwords p hp).ne_nil
          rw [← hn, length_append]
          omega
        exact .hit hp hother (ih _ hlt rest ((alike_hit (by simp) hwords hp hother).mp h) rfl)
      · exfalso
        by_cases hinside : ∀ w ∈ words, ∀ v, v ≠ [] → v <:+ p → w <+: v ++ rest → w <+: p ++ rest
        · -- all words that begin inside the shortest one are found at its place
          push Not at hother
          obtain ⟨y, hy, hne, v, hv, hsuffix, hbegins⟩ := hother
          obtain ⟨order, order', hperm, hperm', hdiffer⟩ := longer_word_matters hbody hwords hp
            hshort hinside hy (hinside y hy v hv hsuffix hbegins) hne
          exact hdiffer (h order order' hperm hperm')
        · push Not at hinside
          obtain ⟨x, hx, v, hv, hsuffix, hbegins, hfront⟩ := hinside
          have hpermx : (x :: words.erase x).Perm words := (perm_cons_erase hx).symm
          have hpermp : (p :: words.erase p).Perm words := (perm_cons_erase hp).symm
          obtain ⟨c, hc, t, ht⟩ := first_letter_left hwords hp hshort hx hfront hv hsuffix hbegins
            erase_subset
          have heq := h _ _ hpermx hpermp
          rw [ht, replaceAll_hit_first (by simp)
            fun w hw => hwords w (hpermp.mem_iff.mp hw)] at heq
          exact (hwords p hp).not_mem c hc ((cons.inj heq).1 ▸ mem_cons_self)

/-- **The clean texts are those that every order of the words masks alike.** -/
theorem clean_iff (text : List α) :
    Clean words text ↔ Alike (d :: body) words text :=
  ⟨fun h => h.alike (by simp) hwords, clean_of_alike hbody hwords text⟩

end

end Orders

end Masking
