import BbzPlatform.Lib.TokenNet.Game
import Mathlib.Algebra.Order.BigOperators.Group.Finset
import Mathlib.Algebra.Group.Action.Defs

/-!
# Traces of the token game

A trace is a sequence of labelled steps.  What a trace did is read off its labels:
how often a node was passed, which tokens were taken there, which arrived.  The
balance of tokens and the label laws relate the three, and two bounds follow: an
OR join of an acyclic net fires at most once, and the number of moves is bounded
by any solution `F` of the firing inequalities.

## Main definitions

* `Trace R` — a sequence of steps of a labelled relation.
* `passes`, `takenAt`, `arrivedAt` — what the labels of a trace say of a node.
* `Passage.Lawful` — what a node of each role can do in one step.
* `FiringBound` — bounds on the number of passages of every node.
-/

namespace TokenNet

open List

/-- A sequence of labelled steps. -/
inductive Trace {S L : Type} (R : S → L → S → Prop) : S → List L → S → Prop where
  | nil (s : S) : Trace R s [] s
  | snoc {s t u : S} {ls : List L} {l : L} (h : Trace R s ls t) (hl : R t l u) :
      Trace R s (ls ++ [l]) u

namespace Trace

variable {S L : Type} {R R' : S → L → S → Prop} {s t u : S} {ls ks : List L} {l : L}

theorem single (h : R s l t) : Trace R s [l] t := .snoc (.nil s) h

theorem trans (h : Trace R s ls t) (h' : Trace R t ks u) : Trace R s (ls ++ ks) u := by
  induction h' with
  | nil => simpa using h
  | snoc _ hl ih => simpa using ih.snoc hl

theorem cons (hl : R s l t) (h : Trace R t ls u) : Trace R s (l :: ls) u :=
  (single hl).trans h

theorem mono (hR : ∀ s l t, R s l t → R' s l t) (h : Trace R s ls t) : Trace R' s ls t := by
  induction h with
  | nil => exact .nil _
  | snoc _ hl ih => exact ih.snoc (hR _ _ _ hl)

/-- What every step keeps, a trace keeps. -/
theorem invariant {P : S → Prop} (hstep : ∀ s l t, R s l t → P s → P t) (h : Trace R s ls t)
    (hs : P s) : P t := by
  induction h with
  | nil => exact hs
  | snoc _ hl ih => exact hstep _ _ _ hl ih

end Trace

section Labels

variable {N E : Type}

section

variable [DecidableEq E]

/-- The nodes that were passed, once for every time. -/
def passes (ps : List (Passage N E)) : Multiset N :=
  ↑((ps.filter fun p => p.taken ≠ 0).map Passage.node)

@[simp] theorem passes_nil : passes ([] : List (Passage N E)) = 0 := rfl

theorem passes_append (ps qs : List (Passage N E)) : passes (ps ++ qs) = passes ps + passes qs := by
  simp [passes]

theorem passes_single (p : Passage N E) : passes [p] = if p.taken = 0 then 0 else {p.node} := by
  by_cases h : p.taken = 0 <;> simp [passes, h]

theorem passes_cons (p : Passage N E) (ps : List (Passage N E)) :
    passes (p :: ps) = (if p.taken = 0 then 0 else {p.node}) + passes ps := by
  rw [← singleton_append, passes_append, passes_single]

end

variable [DecidableEq N]

/-- The tokens taken at a node, by the edge they came by. -/
def takenAt (ps : List (Passage N E)) (n : N) : Multiset (Option E) :=
  ((ps.filter fun p => p.node = n).map Passage.taken).sum

/-- The edges of a list that lead to a node, as the tokens there know them. -/
def viasTo (es : List (N × E)) (n : N) : Multiset (Option E) :=
  ↑((es.filter fun e => e.1 = n).map fun e => some e.2)

/-- The tokens sent to a node. -/
def arrivedAt (ps : List (Passage N E)) (n : N) : Multiset (Option E) :=
  viasTo (ps.flatMap Passage.sent) n

@[simp] theorem takenAt_nil (n : N) : takenAt ([] : List (Passage N E)) n = 0 := rfl
@[simp] theorem arrivedAt_nil (n : N) : arrivedAt ([] : List (Passage N E)) n = 0 := rfl

theorem viasTo_append (es fs : List (N × E)) (n : N) :
    viasTo (es ++ fs) n = viasTo es n + viasTo fs n := by
  simp [viasTo]

theorem takenAt_append (ps qs : List (Passage N E)) (n : N) :
    takenAt (ps ++ qs) n = takenAt ps n + takenAt qs n := by
  simp [takenAt]

theorem arrivedAt_append (ps qs : List (Passage N E)) (n : N) :
    arrivedAt (ps ++ qs) n = arrivedAt ps n + arrivedAt qs n := by
  simp [arrivedAt, viasTo_append]

theorem takenAt_single (p : Passage N E) (n : N) :
    takenAt [p] n = if p.node = n then p.taken else 0 := by
  by_cases h : p.node = n <;> simp [takenAt, h]

theorem takenAt_cons (p : Passage N E) (ps : List (Passage N E)) (n : N) :
    takenAt (p :: ps) n = (if p.node = n then p.taken else 0) + takenAt ps n := by
  rw [← singleton_append, takenAt_append, takenAt_single]

theorem map_takenAt_eq_sum (f : Multiset (Option E) →+ ℕ) (ps : List (Passage N E)) (n : N) :
    f (takenAt ps n) = ((ps : Multiset (Passage N E)).map fun p =>
      if p.node = n then f p.taken else 0).sum := by
  induction ps with
  | nil => simp
  | cons p ps ih =>
    rw [takenAt_cons, map_add, ih, ← Multiset.cons_coe, Multiset.map_cons, Multiset.sum_cons,
      apply_ite f, map_zero]

theorem arrivedAt_single (p : Passage N E) (n : N) : arrivedAt [p] n = viasTo p.sent n := by
  simp [arrivedAt]

theorem viaAt_eq_spots (M : Marking N E) (n : N) :
    viaAt M n = ((M.map Tok.spot).filter fun x => x.1 = n).map Prod.snd := by
  rw [Multiset.filter_map, Multiset.map_map, viaAt]
  rfl

variable [DecidableEq E] {net : Net N E} {sel sel' : Selection N E} {fin : N → Prop}
  {M M' : Marking N E}
  {p : Passage N E} {ps : List (Passage N E)}

/-! ## Balance at a node -/

/-- What is left at a node together with what was taken there is what was there
together with what arrived. -/
theorem Step.balanceAt (h : Step net sel fin M p M') (n : N) :
    viaAt M' n + takenAt [p] n = viaAt M n + arrivedAt [p] n := by
  have hspots := congrArg (fun S => (S.filter fun x => x.1 = n).map Prod.snd) h.balance
  simp only [Multiset.filter_add, Multiset.map_add, ← viaAt_eq_spots] at hspots
  have hremoved : (p.removed.filter fun x => x.1 = n).map Prod.snd = takenAt [p] n := by
    rw [takenAt_single, Passage.removed, Multiset.filter_map, Multiset.map_map]
    by_cases hn : p.node = n <;> simp [hn]
  have hadded : (p.added.filter fun x => x.1 = n).map Prod.snd = arrivedAt [p] n := by
    rw [arrivedAt_single, Passage.added, viasTo]
    simp [filter_map, Function.comp_def]
  rwa [hremoved, hadded] at hspots

variable {R : Marking N E → Passage N E → Marking N E → Prop} {n : N} {F : N → ℕ} {ns : Finset N}

theorem Trace.balanceAt (hR : ∀ M p M', R M p M' → ∃ sel, Step net sel fin M p M')
    (h : Trace R M ps M') (n : N) : viaAt M' n + takenAt ps n = viaAt M n + arrivedAt ps n := by
  induction h with
  | nil => simp
  | snoc _ hl ih =>
    obtain ⟨sel, hstep⟩ := hR _ _ _ hl
    rw [takenAt_append, arrivedAt_append, add_comm (takenAt _ n), ← add_assoc,
      hstep.balanceAt n, add_right_comm, ih, add_assoc]

/-! ## What a step can do -/

/-- The laws of a label: an idle step sends nothing, a passage sends what its node
sends, only joins take several tokens, and an AND join takes one for every
incoming edge. -/
structure Passage.Lawful (net : Net N E) (sel : Selection N E) (p : Passage N E) : Prop where
  idle : p.taken = 0 → p.sent = []
  sends : p.taken ≠ 0 → p.sent = net.sentBy sel p.node
  single : p.taken ≠ 0 → net.role p.node ≠ some .andJoin → net.role p.node ≠ some .xorJoin →
    net.role p.node ≠ some .orJoin → p.taken.card = 1
  all : p.taken ≠ 0 → net.role p.node = some .andJoin →
    net.inc p.node ≠ [] ∧ ∀ e ∈ net.inc p.node, some e ∈ p.taken
  known : p.taken ≠ 0 → net.role p.node ≠ none
  chosen : p.taken ≠ 0 → net.role p.node = some .choice → sel p.node ≠ none

/-- Every step obeys the laws, also under a selection that decides more. -/
theorem Step.lawful (hfin : ∀ n, fin n → net.role n = some .task)
    (hsel : ∀ n es, sel' n = some es → sel n = some es) (h : Step net sel' fin M p M') :
    p.Lawful net sel := by
  have hidle : ∀ n : N, Passage.Lawful net sel (⟨n, 0, []⟩ : Passage N E) := fun n =>
    ⟨fun _ => rfl, fun h => absurd rfl h, fun h => absurd rfl h, fun h => absurd rfl h,
      fun h => absurd rfl h, fun h => absurd rfl h⟩
  cases h with
  | move h =>
    cases h with
    | park ht ha why => exact hidle _
    | @pass t es ht ha why =>
      refine ⟨fun h => absurd h (by simp), fun _ => ?_, fun _ _ _ _ => by simp,
        fun _ hr => ?_, fun _ => ?_, fun _ hr => ?_⟩
      · rcases why with ⟨hr, rfl⟩ | ⟨hr, hs⟩
        · exact (sentBy_of_ne_choice (by simp [hr])).symm
        · simp [Net.sentBy, hr, hsel _ _ hs]
      · rcases why with ⟨h, -⟩ | ⟨h, -⟩ <;> rw [h] at hr <;> cases hr
      · rcases why with ⟨h, -⟩ | ⟨h, -⟩ <;> simp [h]
      · rcases why with ⟨h, -⟩ | ⟨-, h⟩
        · rw [h] at hr; cases hr
        · simp [hsel _ _ h]
    | @fire t ht ha why =>
      have hne : viaAt M t.node ≠ 0 := fun h0 => by
        have : t.via ∈ viaAt M t.node := mem_viaAt.mpr ⟨t, ht, rfl, rfl⟩
        simp [h0] at this
      refine ⟨fun h => absurd h hne, fun _ => ?_, fun _ h1 h2 h3 => ?_, fun _ hr => ?_,
        fun _ => ?_, fun _ hr => ?_⟩
      · refine (sentBy_of_ne_choice ?_).symm
        rcases why with ⟨h, -⟩ | h | ⟨h, -⟩ <;> simp [h]
      · rcases why with ⟨h, -⟩ | h | ⟨h, -⟩
        · exact absurd h h1
        · exact absurd h h2
        · exact absurd h h3
      · rcases why with ⟨-, h⟩ | h | ⟨h, -⟩
        · exact h
        · rw [h] at hr; cases hr
        · rw [h] at hr; cases hr
      · rcases why with ⟨h, -⟩ | h | ⟨h, -⟩ <;> simp [h]
      · rcases why with ⟨h, -⟩ | h | ⟨h, -⟩ <;> rw [h] at hr <;> cases hr
  | @finish t ht ha hf =>
    have hr := hfin _ hf
    refine ⟨fun h => absurd h (by simp), fun _ => ?_, fun _ _ _ _ => by simp, fun _ h => ?_,
      fun _ => by simp [hr], fun _ h => ?_⟩
    · exact (sentBy_of_ne_choice (by simp [hr])).symm
    · simp only [hr] at h
      cases h
    · simp only [hr] at h
      cases h
  | wake ht ha why => exact hidle _

/-- A trace whose labels are lawful sends along its passages. -/
theorem arrivedAt_eq_bind (hlaw : ∀ p ∈ ps, p.Lawful net sel) (n : N) :
    arrivedAt ps n = (passes ps).bind fun m => viasTo (net.sentBy sel m) n := by
  induction ps with
  | nil => simp
  | cons p ps ih =>
    have hp := hlaw p (by simp)
    have hrest := ih fun q hq => hlaw q (mem_cons_of_mem _ hq)
    rw [← singleton_append, arrivedAt_append, passes_append, Multiset.add_bind, hrest,
      arrivedAt_single, passes_single]
    by_cases h0 : p.taken = 0
    · simp [h0, hp.idle h0, viasTo]
    · simp [h0, hp.sends h0]

theorem takenAt_eq_zero (h : (passes ps).count n = 0) : takenAt ps n = 0 := by
  induction ps with
  | nil => simp
  | cons p ps ih =>
    rw [passes_cons, Multiset.count_add] at h
    rw [takenAt_cons, ih (by omega), add_zero]
    split_ifs with hn
    · by_contra h0
      rw [if_neg h0] at h
      simp [hn] at h
    · rfl

theorem count_passes_eq_sum (ps : List (Passage N E)) (n : N) :
    (passes ps).count n = ((ps : Multiset (Passage N E)).map fun p =>
      if p.taken ≠ 0 ∧ p.node = n then 1 else 0).sum := by
  induction ps with
  | nil => rfl
  | cons p ps ih =>
    rw [passes_cons, Multiset.count_add, ih, ← Multiset.cons_coe, Multiset.map_cons,
      Multiset.sum_cons]
    by_cases h0 : p.taken = 0
    · simp [h0]
    · simp [h0, Multiset.count_singleton, eq_comm]

/-- Every passage of a node takes something there, if it does so by itself. -/
theorem count_passes_le {f : Multiset (Option E) →+ ℕ}
    (h : ∀ p ∈ ps, p.taken ≠ 0 → p.node = n → 1 ≤ f p.taken) :
    (passes ps).count n ≤ f (takenAt ps n) := by
  rw [count_passes_eq_sum, map_takenAt_eq_sum]
  refine Multiset.sum_map_le_sum_map _ _ fun p hp => ?_
  split_ifs with hpass hn hn
  · exact h p hp hpass.1 hn
  · exact absurd hpass.2 hn
  · exact Nat.zero_le _
  · exact le_rfl

/-- A node is passed as often as it takes something, if it takes no more than that by itself. -/
theorem le_count_passes {f : Multiset (Option E) →+ ℕ}
    (h : ∀ p ∈ ps, p.node = n → f p.taken ≤ 1) : f (takenAt ps n) ≤ (passes ps).count n := by
  rw [count_passes_eq_sum, map_takenAt_eq_sum]
  refine Multiset.sum_map_le_sum_map _ _ fun p hp => ?_
  by_cases hn : p.node = n
  · by_cases h0 : p.taken = 0
    · simp [h0]
    · simpa [hn, h0] using h p hp hn
  · simp [hn]

theorem count_passes_le_card (n : N) : (passes ps).count n ≤ (takenAt ps n).card :=
  count_passes_le (f := Multiset.cardHom) fun _ _ h0 _ => Multiset.card_pos.mpr h0

section

variable (hlaw : ∀ p ∈ ps, p.Lawful net sel)
include hlaw

/-- Away from the joins every passage takes exactly one token. -/
theorem card_takenAt (h1 : net.role n ≠ some .andJoin) (h2 : net.role n ≠ some .xorJoin)
    (h3 : net.role n ≠ some .orJoin) : (takenAt ps n).card = (passes ps).count n := by
  refine le_antisymm (le_count_passes (f := Multiset.cardHom) fun p hp hn => ?_)
    (count_passes_le_card n)
  subst hn
  by_cases h0 : p.taken = 0
  · simp [h0]
  · exact (hlaw p hp).single h0 h1 h2 h3 |>.le

/-- Every firing of an AND join takes a token of every incoming edge. -/
theorem count_passes_le_count (hr : net.role n = some .andJoin) {e : E} (he : e ∈ net.inc n) :
    (passes ps).count n ≤ (takenAt ps n).count (some e) := by
  refine count_passes_le (f := Multiset.countAddMonoidHom (some e)) fun p hp h0 hn => ?_
  subst hn
  exact Multiset.one_le_count_iff_mem.mpr (((hlaw p hp).all h0 hr).2 e he)

omit [DecidableEq N] in
/-- Only known nodes are passed, an AND join only if it has incoming edges, and a choice
only if it is decided. -/
theorem role_of_mem_passes (h : n ∈ passes ps) :
    net.role n ≠ none ∧ (net.role n = some .andJoin → net.inc n ≠ []) ∧
      (net.role n = some .choice → sel n ≠ none) := by
  simp only [passes, Multiset.mem_coe, mem_map, mem_filter, decide_eq_true_eq] at h
  obtain ⟨p, ⟨hp, h0⟩, rfl⟩ := h
  exact ⟨(hlaw p hp).known h0, fun hr => ((hlaw p hp).all h0 hr).1, (hlaw p hp).chosen h0⟩

end

/-! ## OR joins fire at most once -/

/-- **An OR join that lies on no cycle fires at most once**, and once it has fired no
token is at it or can reach it. -/
theorem Trace.orJoin_once {j : N} (hac : ¬ net.Reaches j j)
    (hfin : ∀ n, fin n → net.role n = some .task) (hR : ∀ M p M', R M p M' →
      ∃ sel, (∀ n es, sel n = some es → es ⊆ net.out n) ∧ Step net sel fin M p M')
    (h : Trace R M ps M') (hj : net.role j = some .orJoin) :
    (passes ps).count j = 0 ∨ ((passes ps).count j = 1 ∧ Cleared net M' j) := by
  induction h with
  | nil => exact .inl (by simp)
  | @snoc M₁ M₂ ps p _ hl ih =>
    obtain ⟨sel, hsel, hstep⟩ := hR _ _ _ hl
    rw [passes_append, Multiset.count_add]
    have hidle : p.node ≠ j ∨ p.taken = 0 → (passes [p]).count j = 0 := by
      rintro (h | h)
      · by_cases h0 : p.taken = 0
        · simp [passes_single, h0]
        · simp [passes_single, h0, Ne.symm h]
      · simp [passes_single, h]
    rcases ih with h0 | ⟨h1, hclear⟩
    · by_cases hfire : p.node = j ∧ p.taken ≠ 0
      · obtain ⟨rfl, htaken⟩ := hfire
        refine .inr ⟨by simp [h0, passes_single, htaken], ?_⟩
        exact hstep.cleared_of_fire hac hfin hj htaken
      · refine .inl ?_
        rw [h0, hidle (by tauto)]
    · refine .inr ⟨?_, hstep.cleared hsel hclear⟩
      have hne : p.node ≠ j := by
        rintro rfl
        obtain ⟨t, ht, heq⟩ := hstep.exists_mem
        exact hclear t ht (.inl heq)
      rw [h1, hidle (.inl hne)]

/-! ## The number of moves -/

section

omit [DecidableEq N] [DecidableEq E]

/-- The active tokens at the nodes that satisfy `q`. -/
def activeCount (q : N → Prop) [DecidablePred q] (M : Marking N E) : ℕ :=
  M.countP fun t => q t.node ∧ t.active = true

theorem activeCount_add (q : N → Prop) [DecidablePred q] (M M' : Marking N E) :
    activeCount q (M + M') = activeCount q M + activeCount q M' :=
  Multiset.countP_add _ _ _

theorem activeCount_sends (q : N → Prop) [DecidablePred q] (es : List (N × E)) :
    activeCount q (sends es) = (es.filter fun e => q e.1).length := by
  rw [activeCount, sends, Multiset.coe_countP, countP_map, countP_eq_length_filter]
  refine congrArg length (filter_congr fun e _ => ?_)
  exact decide_eq_decide.mpr ⟨fun h => h.1, fun h => ⟨h, rfl⟩⟩

end

theorem activeCount_erase (q : N → Prop) [DecidablePred q] {t : Tok N E} (ht : t ∈ M)
    (ha : t.active = true) :
    (if q t.node then 1 else 0) + activeCount q (M.erase t) = activeCount q M := by
  conv_rhs => rw [← Multiset.cons_erase ht]
  rw [activeCount, activeCount, Multiset.countP_cons, add_comm]
  simp [ha]

/-- A move uses up an active token and makes one for each edge it sends over. -/
theorem Move.activeCount_le (q : N → Prop) [DecidablePred q] (h : Move net sel M p M') :
    (if q p.node then 1 else 0) + activeCount q M' ≤
      activeCount q M + (p.sent.filter fun e => q e.1).length := by
  cases h with
  | park ht ha why =>
    rw [activeCount_add, ← add_assoc, activeCount_erase q ht ha]
    simp [activeCount, Multiset.countP_eq_zero]
  | pass ht ha why =>
    rw [activeCount_add, ← add_assoc, activeCount_erase q ht ha, activeCount_sends]
  | @fire t ht ha why =>
    rw [activeCount_add, activeCount_sends, ← add_assoc]
    refine Nat.add_le_add_right ?_ _
    have hsplit := Multiset.filter_add_not (fun u : Tok N E => u.node ≠ t.node) M
    conv_rhs => rw [← hsplit, activeCount_add]
    rw [add_comm]
    refine Nat.add_le_add_left ?_ _
    split_ifs with hq
    · refine Multiset.countP_pos.mpr ⟨t, ?_, hq, ha⟩
      exact Multiset.mem_filter.mpr ⟨ht, by simp⟩
    · exact Nat.zero_le _

/-- The moves at the nodes that satisfy `q` are bounded by the active tokens there
and the edges sent over to them. -/
theorem Trace.activeCount_le (q : N → Prop) [DecidablePred q] (h : Trace (Move net sel) M ps M') :
    ps.countP (fun p => q p.node) + activeCount q M' ≤
      activeCount q M + ((ps.flatMap Passage.sent).filter fun e => q e.1).length := by
  induction h with
  | nil => simp
  | snoc _ hl ih =>
    have := hl.activeCount_le q
    simp only [countP_append, countP_singleton, flatMap_append,
      flatMap_singleton, filter_append, length_append]
    simp only [decide_eq_true_eq]
    omega

/-- `F n` bounds the passages of every node `n` in a trace of moves from `M`: by the
tokens that can become active there, for an AND join by those of one incoming
edge, for an OR join by one. -/
def FiringBound (net : Net N E) (sel : Selection N E) (ns : Finset N) (M : Marking N E)
    (F : N → ℕ) : Prop :=
  ∀ n, net.role n ≠ none → net.role n ≠ some .task →
    (activeCount (· = n) M + ∑ m ∈ ns, F m * (viasTo (net.sentBy sel m) n).card ≤ F n) ∨
    (net.role n = some .andJoin ∧ ∃ e ∈ net.inc n,
      (viaAt M n).count (some e)
        + ∑ m ∈ ns, F m * (viasTo (net.sentBy sel m) n).count (some e) ≤ F n) ∨
    (net.role n = some .orJoin ∧ ¬ net.Reaches n n ∧ 1 ≤ F n)

/-- A sum over passages is bounded through the number of passages of each node. -/
theorem sum_map_passes_le {P : Multiset N} (hmem : ∀ m ∈ P, m ∈ ns) (hF : ∀ m, P.count m ≤ F m)
    (f : N → ℕ) : (P.map f).sum ≤ ∑ m ∈ ns, F m * f m := by
  rw [Finset.sum_multiset_map_count]
  calc ∑ m ∈ P.toFinset, P.count m • f m
      ≤ ∑ m ∈ P.toFinset, F m * f m := Finset.sum_le_sum fun m _ => by
        rw [smul_eq_mul]
        exact Nat.mul_le_mul_right _ (hF m)
    _ ≤ ∑ m ∈ ns, F m * f m :=
        Finset.sum_le_sum_of_subset fun m hm => hmem m (Multiset.mem_toFinset.mp hm)

/-- A trace of moves obeys the label laws. -/
theorem Trace.lawful (h : Trace (Move net sel) M ps M') : ∀ p ∈ ps, p.Lawful net sel := by
  induction h with
  | nil => simp
  | snoc _ hl ih =>
    have hstep : Step net sel (fun _ => False) _ _ _ := .move hl
    exact forall_mem_append.mpr ⟨ih, forall_mem_singleton.mpr
      (hstep.lawful (fun _ h => h.elim) fun _ _ h => h)⟩

theorem Move.exists_active (h : Move net sel M p M') :
    ∃ t ∈ M, t.node = p.node ∧ t.active = true := by
  cases h with
  | park ht ha | pass ht ha | fire ht ha => exact ⟨_, ht, rfl, ha⟩

/-- A task takes no token by itself. -/
theorem Move.ne_task (h : Move net sel M p M') (h0 : p.taken ≠ 0) :
    net.role p.node ≠ some .task := by
  intro hr
  cases h with
  | park => exact h0 rfl
  | pass ht ha why => rcases why with ⟨h, -⟩ | ⟨h, -⟩ <;> simp [h] at hr
  | fire ht ha why => rcases why with ⟨h, -⟩ | h | ⟨h, -⟩ <;> simp [h] at hr

theorem count_passes_le_countP (n : N) : (passes ps).count n ≤ ps.countP fun q => q.node = n := by
  rw [passes, Multiset.coe_count, count, countP_map, countP_filter]
  refine countP_mono_left fun q _ hq => ?_
  simp only [Function.comp, Bool.and_eq_true, beq_iff_eq] at hq
  simpa using hq.1

/-- The tokens sent to a node are those that the passed nodes send there. -/
theorem length_sent_eq_sum (hlaw : ∀ p ∈ ps, p.Lawful net sel) (n : N) :
    ((ps.flatMap Passage.sent).filter fun e => e.1 = n).length =
      ((passes ps).map fun m => (viasTo (net.sentBy sel m) n).card).sum := by
  have hcard := congrArg Multiset.card (arrivedAt_eq_bind hlaw n)
  rw [Multiset.card_bind] at hcard
  simpa [arrivedAt, viasTo, Function.comp_def] using hcard

theorem Trace.count_passes_lt_active (h : Trace (Move net sel) M ps M')
    {M'' : Marking N E} (hl : Move net sel M' p M'') :
    (passes ps).count p.node + 1 ≤ activeCount (· = p.node) M +
      ((passes ps).map fun m => (viasTo (net.sentBy sel m) p.node).card).sum := by
  have hact := h.activeCount_le (· = p.node)
  obtain ⟨t, ht, htn, hta⟩ := hl.exists_active
  have hpos : 1 ≤ activeCount (· = p.node) M' := Multiset.countP_pos.mpr ⟨t, ht, htn, hta⟩
  have hcount : (passes ps).count p.node ≤ _ := count_passes_le_countP p.node
  have hsent := length_sent_eq_sum h.lawful p.node
  omega

/-- The next firing of an AND join takes a token of each edge, beside all that were taken. -/
theorem Trace.count_passes_lt_edge (h : Trace (Move net sel) M ps M') {M'' : Marking N E}
    (hl : Move net sel M' p M'') (h0 : p.taken ≠ 0) (hr : net.role p.node = some .andJoin)
    {e : E} (he : e ∈ net.inc p.node) :
    (passes ps).count p.node + 1 ≤ (viaAt M p.node).count (some e) +
      ((passes ps).map fun m => (viasTo (net.sentBy sel m) p.node).count (some e)).sum := by
  have hbal := congrArg (Multiset.count (some e)) (h.balanceAt
    (fun _ _ _ h => ⟨sel, (Step.move h : Step net sel (fun _ => False) _ _ _)⟩) p.node)
  rw [Multiset.count_add, Multiset.count_add, arrivedAt_eq_bind h.lawful,
    Multiset.count_bind] at hbal
  have htaken := count_passes_le_count h.lawful hr he
  have hpresent : 1 ≤ (viaAt M' p.node).count (some e) := by
    refine Multiset.one_le_count_iff_mem.mpr ?_
    have hp := (h.snoc hl).lawful p (by simp)
    cases hl with
    | park => exact absurd rfl h0
    | pass ht ha why => rcases why with ⟨h, -⟩ | ⟨h, -⟩ <;> simp [h] at hr
    | fire ht ha why => exact (hp.all h0 hr).2 e he
  omega

variable (hsel : ∀ n es, sel n = some es → es ⊆ net.out n)
include hsel

/-- **A firing bound bounds the passages of every node.** -/
theorem Trace.count_passes_le (hns : ∀ n, net.role n ≠ none → n ∈ ns)
    (hF : FiringBound net sel ns M F) (h : Trace (Move net sel) M ps M') (n : N) :
    (passes ps).count n ≤ F n := by
  induction h generalizing n with
  | nil => simp
  | @snoc M₁ M₂ ps p hps hl ih =>
    rw [passes_append, Multiset.count_add, passes_single]
    by_cases h0 : p.taken = 0
    · simpa [h0] using ih n
    by_cases hn : p.node = n
    swap
    · simpa [h0, Ne.symm hn] using ih n
    subst hn
    have hknown := ((hps.snoc hl).lawful p (by simp)).known h0
    have hmem : ∀ m ∈ passes ps, m ∈ ns := fun m hm =>
      hns m (role_of_mem_passes hps.lawful hm).1
    rw [if_neg h0, Multiset.count_singleton_self]
    -- the three ways to bound a node: its tokens, those of one edge, or that it fires once
    rcases hF p.node hknown (hl.ne_task h0) with hle | ⟨hr, e, he, hle⟩ | ⟨hr, hac, hle⟩
    · have hlt := hps.count_passes_lt_active hl
      have hsum := sum_map_passes_le hmem ih fun m => (viasTo (net.sentBy sel m) p.node).card
      omega
    · have hlt := hps.count_passes_lt_edge hl h0 hr he
      have hsum := sum_map_passes_le hmem ih fun m =>
        (viasTo (net.sentBy sel m) p.node).count (some e)
      omega
    · have honce := (hps.snoc hl).orJoin_once hac (fun _ h => h.elim)
        (fun _ _ _ h => ⟨sel, hsel, (Step.move h : Step net sel (fun _ => False) _ _ _)⟩) hr
      rw [passes_append, Multiset.count_add, passes_single, if_neg h0,
        Multiset.count_singleton_self] at honce
      omega

/-- **A firing bound bounds the number of moves.** -/
theorem Trace.length_le (hns : ∀ n, net.role n ≠ none → n ∈ ns) (hF : FiringBound net sel ns M F)
    (h : Trace (Move net sel) M ps M') :
    ps.length + activeCount (fun _ => True) M' ≤
      activeCount (fun _ => True) M + ∑ m ∈ ns, F m * (net.sentBy sel m).length := by
  have hact := h.activeCount_le fun _ => True
  have hsent : (ps.flatMap Passage.sent).length
      = ((passes ps).map fun m => (net.sentBy sel m).length).sum := by
    have hlaw := h.lawful
    clear h hact
    induction ps with
    | nil => simp
    | cons p ps ih =>
      have hp := hlaw p (by simp)
      rw [passes_cons, flatMap_cons, length_append, Multiset.map_add, Multiset.sum_add,
        ih fun q hq => hlaw q (mem_cons_of_mem _ hq)]
      by_cases h0 : p.taken = 0
      · simp [h0, hp.idle h0]
      · simp [h0, hp.sends h0]
  have hsum := sum_map_passes_le (fun m hm => hns m (role_of_mem_passes h.lawful hm).1)
    (h.count_passes_le hsel hns hF) fun m => (net.sentBy sel m).length
  simp only [decide_true, filter_true, countP_true] at hact
  omega

end Labels

end TokenNet
