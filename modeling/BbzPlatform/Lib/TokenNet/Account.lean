import BbzPlatform.Lib.TokenNet.Trace

/-!
# Accounts of a trace, and how far two traces got

An `Account` keeps of a trace only what it did at each node: how often the node was
passed, which tokens were taken and which are left.  On an acyclic net an account
is determined by what was finished from outside, whatever the order of the moves.
`Account.mono` is the one-sided form: a trace that finished at least as much, and
left no token that could have moved, got at least as far at every node.

Two things can make the order visible, and both are excluded by hypothesis.  A join
that takes several tokens of one edge at once merges them or not according to the
order (`Account.SingleAt` says that it never does), and an OR join left without a feeder
keeps tokens that another order lets through (`Account.Settled.or`).
-/

namespace TokenNet

open Multiset

variable {N E : Type} [DecidableEq N] [DecidableEq E]

/-- What a trace from `M₀` did at every node. -/
structure Account (net : Net N E) (sel : Selection N E) (M₀ : Marking N E) where
  passes : Multiset N
  taken : N → Multiset (Option E)
  rest : N → Multiset (Option E)
  balance : ∀ n, rest n + taken n =
    viaAt M₀ n + passes.bind fun m => viasTo (net.sentBy sel m) n
  taken_eq_zero : ∀ n, passes.count n = 0 → taken n = 0
  count_le_card : ∀ n, passes.count n ≤ (taken n).card
  card_taken : ∀ n, net.role n ≠ some .andJoin → net.role n ≠ some .xorJoin →
    net.role n ≠ some .orJoin → (taken n).card = passes.count n
  count_le_count : ∀ n, net.role n = some .andJoin → ∀ e ∈ net.inc n,
    passes.count n ≤ (taken n).count (some e)
  known : ∀ n ∈ passes, net.role n ≠ none ∧ (net.role n = some .andJoin → net.inc n ≠ []) ∧
    (net.role n = some .choice → sel n ≠ none)
  once : ∀ n, net.role n = some .orJoin →
    passes.count n = 0 ∨ (passes.count n = 1 ∧ ∀ m, net.Leads m n → rest m = 0)

variable {net : Net N E} {sel sel' : Selection N E} {M₀ M M' : Marking N E}
  {a b : Account net sel M₀} {n : N} {rank : N → ℕ} {fin : N → Prop} {p : Passage N E}
  {ps : List (Passage N E)} {t : Tok N E} {R : Marking N E → Passage N E → Marking N E → Prop}

namespace Account

/-- The tokens that were at a node or came to it. -/
def incoming (a : Account net sel M₀) (n : N) : Multiset (Option E) :=
  viaAt M₀ n + a.passes.bind fun m => viasTo (net.sentBy sel m) n

/-- No token could have moved: nothing is left where tokens never wait, no AND join
is complete, and an OR join with a token left has another one before it. -/
structure Settled (a : Account net sel M₀) : Prop where
  through : ∀ n, net.role n = some .pass ∨ net.role n = some .xorJoin → a.rest n = 0
  and : ∀ n, net.role n = some .andJoin →
    ¬ (net.inc n ≠ [] ∧ ∀ e ∈ net.inc n, some e ∈ a.rest n)
  or : ∀ n, net.role n = some .orJoin → a.rest n ≠ 0 → ∃ m, net.Reaches m n ∧ a.rest m ≠ 0

/-- If the node is an AND join, each passage took at most one token of every edge, and if it is an
XOR join at most one token. -/
structure SingleAt (a : Account net sel M₀) (n : N) : Prop where
  and : net.role n = some .andJoin → ∀ x, (a.taken n).count x ≤ a.passes.count n
  xor : net.role n = some .xorJoin → (a.taken n).card ≤ a.passes.count n

theorem rest_add_taken (a : Account net sel M₀) (n : N) : a.rest n + a.taken n = a.incoming n :=
  a.balance n

theorem taken_le (a : Account net sel M₀) (n : N) : a.taken n ≤ a.incoming n := by
  rw [← a.rest_add_taken]
  exact le_add_left _ _

theorem taken_eq_of_rest (a : Account net sel M₀) (h : a.rest n = 0) :
    a.taken n = a.incoming n := by
  rw [← a.rest_add_taken, h, zero_add]

theorem passes_ne_zero (a : Account net sel M₀) (h : a.taken n ≠ 0) : a.passes.count n ≠ 0 :=
  fun h0 => h (a.taken_eq_zero n h0)

omit [DecidableEq E] in
/-- Nothing comes to a node from nodes without an edge to it. -/
theorem viasTo_eq_zero (hsel : ∀ n es, sel n = some es → es ⊆ net.out n) {m : N}
    (h : ¬ net.Adj m n) : viasTo (net.sentBy sel m) n = 0 := by
  have hsub := sentBy_subset hsel m
  simp only [viasTo, coe_eq_zero, List.map_eq_nil_iff, List.filter_eq_nil_iff,
    decide_eq_true_eq]
  rintro ⟨k, e⟩ he rfl
  exact h ⟨e, hsub he⟩

/-- What comes to a node grows with the passages of the nodes before it. -/
theorem incoming_mono (hsel : ∀ n es, sel n = some es → es ⊆ net.out n)
    (h : ∀ m, net.Adj m n → a.passes.count m ≤ b.passes.count m) : a.incoming n ≤ b.incoming n := by
  classical
  have hcut : ∀ c : Account net sel M₀,
      (c.passes.bind fun m => viasTo (net.sentBy sel m) n)
        = (c.passes.filter fun m => net.Adj m n).bind fun m => viasTo (net.sentBy sel m) n := by
    intro c
    conv_lhs => rw [← filter_add_not (fun m => net.Adj m n) c.passes]
    rw [add_bind]
    have hz : ((c.passes.filter fun m => ¬ net.Adj m n).bind
        fun m => viasTo (net.sentBy sel m) n) = 0 := by
      rw [bind_congr (g := fun _ => 0)]
      · simp
      · intro m hm
        exact viasTo_eq_zero hsel (mem_filter.mp hm).2
    rw [hz, add_zero]
  have hle : (a.passes.filter fun m => net.Adj m n) ≤ b.passes.filter fun m => net.Adj m n := by
    rw [le_iff_count]
    intro m
    simp only [count_filter]
    split_ifs with hm
    · exact h m hm
    · exact Nat.le_refl 0
  obtain ⟨R, hR⟩ := Multiset.le_iff_exists_add.mp hle
  rw [incoming, incoming, hcut a, hcut b, hR, add_bind, ← add_assoc]
  exact le_add_right _ _

/-- Where no join takes two tokens as one, the tokens taken at a node tell how often it was
passed. -/
theorem count_le_of_taken (hb : b.SingleAt n) (h : a.taken n = b.taken n) :
    a.passes.count n ≤ b.passes.count n := by
  by_cases h0 : a.passes.count n = 0
  · omega
  by_cases hand : net.role n = some .andJoin
  · have hmem : n ∈ a.passes := count_ne_zero.mp h0
    obtain ⟨e, he⟩ := List.exists_mem_of_ne_nil _ ((a.known n hmem).2.1 hand)
    calc a.passes.count n ≤ (a.taken n).count (some e) := a.count_le_count n hand e he
      _ = (b.taken n).count (some e) := by rw [h]
      _ ≤ b.passes.count n := hb.and hand (some e)
  by_cases hxor : net.role n = some .xorJoin
  · calc a.passes.count n ≤ (a.taken n).card := a.count_le_card n
      _ = (b.taken n).card := by rw [h]
      _ ≤ b.passes.count n := hb.xor hxor
  by_cases hor : net.role n = some .orJoin
  · have hone : a.passes.count n ≤ 1 := by rcases a.once n hor with h | ⟨h, -⟩ <;> omega
    have htaken : b.taken n ≠ 0 := by
      rw [← h]
      intro hz
      have := a.count_le_card n
      simp only [hz, card_zero] at this
      omega
    have := b.passes_ne_zero htaken
    omega
  · rw [← a.card_taken n hand hxor hor, ← b.card_taken n hand hxor hor, h]

section Mono

/-- The statement carried along the net: at the node, `b` got at least as far as `a`. -/
def Behind (a b : Account net sel M₀) (n : N) : Prop :=
  a.passes.count n ≤ b.passes.count n ∧ a.taken n ≤ b.taken n

theorem behind_of_count (h0 : a.passes.count n = 0) : Behind a b n := by
  refine ⟨by omega, ?_⟩
  rw [a.taken_eq_zero n h0]
  exact zero_le _

/-- If `b` left nothing at a node that `a` passed at most once, `b` is ahead there. -/
theorem behind_of_once (hin : a.incoming n ≤ b.incoming n) (hrest : b.rest n = 0)
    (hone : a.passes.count n ≤ 1) : Behind a b n := by
  have htaken : a.taken n ≤ b.taken n := by
    rw [b.taken_eq_of_rest hrest]
    exact (a.taken_le n).trans hin
  refine ⟨?_, htaken⟩
  by_cases h0 : a.taken n = 0
  · have h1 := a.count_le_card n
    simp only [h0, card_zero] at h1
    omega
  · have := b.passes_ne_zero (n := n) fun hz => h0 (le_zero.mp (hz ▸ htaken))
    omega

/-- If `b` left no more than `a` at a node where each passage takes one token, `b` is
ahead there. -/
theorem behind_of_rest (hin : a.incoming n ≤ b.incoming n) (hrest : b.rest n ≤ a.rest n)
    (h1 : net.role n ≠ some .andJoin) (h2 : net.role n ≠ some .xorJoin)
    (h3 : net.role n ≠ some .orJoin) : Behind a b n := by
  have htaken : a.taken n ≤ b.taken n := by
    have hle : a.rest n + a.taken n ≤ a.rest n + b.taken n := by
      rw [a.rest_add_taken]
      refine hin.trans ?_
      rw [← b.rest_add_taken]
      exact add_le_add_left hrest _
    exact le_of_add_le_add_left hle
  refine ⟨?_, htaken⟩
  rw [← a.card_taken n h1 h2 h3, ← b.card_taken n h1 h2 h3]
  exact card_le_card htaken

/-- At an XOR join that never takes two tokens. -/
theorem behind_xor (hin : a.incoming n ≤ b.incoming n) (hrest : b.rest n = 0)
    (hone : (b.taken n).card ≤ b.passes.count n) : Behind a b n := by
  have htaken : a.taken n ≤ b.taken n := by
    rw [b.taken_eq_of_rest hrest]
    exact (a.taken_le n).trans hin
  exact ⟨(a.count_le_card n).trans ((card_le_card htaken).trans hone), htaken⟩

/-- At an AND join that never takes two tokens of one edge. -/
theorem behind_and (hr : net.role n = some .andJoin) (hin : a.incoming n ≤ b.incoming n)
    (hedge : ∀ x ∈ a.incoming n, ∃ e ∈ net.inc n, x = some e)
    (hand : ¬ (net.inc n ≠ [] ∧ ∀ e ∈ net.inc n, some e ∈ b.rest n))
    (ha : ∀ x, (a.taken n).count x ≤ a.passes.count n)
    (hb : ∀ x, (b.taken n).count x ≤ b.passes.count n) : Behind a b n := by
  by_cases h0 : a.passes.count n = 0
  · exact behind_of_count h0
  have hinc := (a.known n (count_ne_zero.mp h0)).2.1 hr
  -- over some edge `b` left nothing, so it took there all that came
  obtain ⟨e, he, hnone⟩ : ∃ e ∈ net.inc n, some e ∉ b.rest n := by
    by_contra hall
    push Not at hall
    exact hand ⟨hinc, hall⟩
  have hcount : a.passes.count n ≤ b.passes.count n := by
    have hbal := congrArg (count (some e)) (b.rest_add_taken n)
    rw [count_add, count_eq_zero_of_notMem hnone, zero_add] at hbal
    calc a.passes.count n ≤ (a.taken n).count (some e) := a.count_le_count n hr e he
      _ ≤ (b.incoming n).count (some e) := count_le_of_le _ ((a.taken_le n).trans hin)
      _ = (b.taken n).count (some e) := hbal.symm
      _ ≤ b.passes.count n := hb (some e)
  refine ⟨hcount, le_iff_count.mpr fun x => ?_⟩
  by_cases hx : x ∈ a.taken n
  · obtain ⟨e, he, rfl⟩ := hedge x (mem_of_le (a.taken_le n) hx)
    exact (ha _).trans (hcount.trans (b.count_le_count n hr e he))
  · rw [count_eq_zero_of_notMem hx]
    exact Nat.zero_le _

/-- At an OR join that fired in `a`, when in `b` nothing is left before it. -/
theorem behind_or (hr : net.role n = some .orJoin) (hin : a.incoming n ≤ b.incoming n)
    (hor : b.rest n ≠ 0 → ∃ m, net.Reaches m n ∧ b.rest m ≠ 0)
    (hdrained : a.passes.count n ≠ 0 → ∀ m, net.Reaches m n → b.rest m = 0) : Behind a b n := by
  by_cases h0 : a.passes.count n = 0
  · exact behind_of_count h0
  refine behind_of_once hin ?_ (by rcases a.once n hr with h | ⟨h, -⟩ <;> omega)
  by_contra hne
  obtain ⟨m, hm, hne⟩ := hor hne
  exact hne (hdrained h0 m hm)

variable (hsel : ∀ n es, sel n = some es → es ⊆ net.out n)
include hsel

/-- Where `a` left nothing at the nodes before `j`, `b` did the same there and left
nothing either. -/
theorem drained (hrank : ∀ m n, net.Adj m n → rank m < rank n)
    (ha : ∀ m, a.SingleAt m) {j : N} (hbehind : ∀ m, net.Reaches m j → Behind a b m)
    (hzero : ∀ m, net.Reaches m j → a.rest m = 0) (m : N) (hm : net.Reaches m j) :
    a.taken m = b.taken m ∧ b.rest m = 0 := by
  induction hk : rank m using Nat.strong_induction_on generalizing m with
  | _ k ih =>
    subst hk
    have hpred : ∀ l, net.Adj l m → a.passes.count l = b.passes.count l := by
      intro l hl
      have hl' : net.Reaches l j := .head hl hm
      have htaken := (ih _ (hrank l m hl) l hl' rfl).1
      exact le_antisymm (hbehind l hl').1 (count_le_of_taken (ha l) htaken.symm)
    have hin : a.incoming m = b.incoming m :=
      le_antisymm (incoming_mono hsel fun l hl => (hpred l hl).le)
        (incoming_mono hsel fun l hl => (hpred l hl).ge)
    have htaken : a.taken m = b.taken m := by
      refine le_antisymm (hbehind m hm).2 ?_
      rw [a.taken_eq_of_rest (hzero m hm), hin]
      exact b.taken_le m
    refine ⟨htaken, ?_⟩
    have hbal := b.rest_add_taken m
    rw [← htaken, a.taken_eq_of_rest (hzero m hm), hin] at hbal
    exact add_eq_right.mp hbal

/-- **A settled account that finished at least as much is ahead at every node.** -/
theorem mono (hrank : ∀ m n, net.Adj m n → rank m < rank n) (hset : b.Settled)
    (ha : ∀ n, a.SingleAt n) (hb : ∀ n, b.SingleAt n)
    (hedge : ∀ n, net.role n = some .andJoin → ∀ x ∈ a.incoming n, ∃ e ∈ net.inc n, x = some e)
    (htask : ∀ n, net.role n = some .task → a.taken n ≤ b.taken n)
    (hchoice : ∀ n, net.role n = some .choice → sel n ≠ none → b.rest n ≤ a.rest n) (n : N) :
    Behind a b n := by
  induction hk : rank n using Nat.strong_induction_on generalizing n with
  | _ k ih =>
    subst hk
    have hin : a.incoming n ≤ b.incoming n :=
      incoming_mono hsel fun m hm => (ih _ (hrank m n hm) m rfl).1
    cases hr : net.role n with
    | none => exact behind_of_count (count_eq_zero.mpr fun hmem => (a.known n hmem).1 hr)
    | some role =>
      cases role with
      | pass =>
        refine behind_of_rest hin ?_ (by simp [hr]) (by simp [hr]) (by simp [hr])
        rw [hset.through n (.inl hr)]
        exact zero_le _
      | choice =>
        by_cases h0 : a.passes.count n = 0
        · exact behind_of_count h0
        · have hmem : n ∈ a.passes := count_ne_zero.mp h0
          exact behind_of_rest hin (hchoice n hr ((a.known n hmem).2.2 hr)) (by simp [hr])
            (by simp [hr]) (by simp [hr])
      | task =>
        refine ⟨?_, htask n hr⟩
        have h : ∀ c : Account net sel M₀, (c.taken n).card = c.passes.count n := fun c =>
          c.card_taken n (by simp [hr]) (by simp [hr]) (by simp [hr])
        rw [← h a, ← h b]
        exact card_le_card (htask n hr)
      | xorJoin => exact behind_xor hin (hset.through n (.inr hr)) ((hb n).xor hr)
      | andJoin =>
        exact behind_and hr hin (hedge n hr) (hset.and n hr) ((ha n).and hr) ((hb n).and hr)
      | orJoin =>
        refine behind_or hr hin (hset.or n hr) fun hfired m hm => ?_
        have hlt : ∀ m, net.Reaches m n → rank m < rank n := by
          intro m hm
          induction hm using Relation.TransGen.head_induction_on with
          | single h => exact hrank _ _ h
          | head h _ ih => exact (hrank _ _ h).trans ih
        refine (drained hsel hrank ha (fun l hl => ih _ (hlt l hl) l rfl) ?_ m hm).2
        intro l hl
        rcases a.once n hr with h | ⟨-, hclear⟩
        · exact absurd h hfired
        · exact hclear l (.inr hl)

end Mono

/-- **What was finished determines the account**: two settled accounts with the same
tokens finished agree at every node. -/
theorem determined (hsel : ∀ n es, sel n = some es → es ⊆ net.out n)
    (hrank : ∀ m n, net.Adj m n → rank m < rank n) (ha : a.Settled) (hb : b.Settled)
    (hasingle : ∀ n, a.SingleAt n) (hbsingle : ∀ n, b.SingleAt n)
    (hedge : ∀ c : Account net sel M₀, ∀ n, net.role n = some .andJoin →
      ∀ x ∈ c.incoming n, ∃ e ∈ net.inc n, x = some e)
    (htask : ∀ n, net.role n = some .task → a.taken n = b.taken n)
    (hchoice : ∀ n, net.role n = some .choice → sel n ≠ none → a.rest n = b.rest n) (n : N) :
    a.passes.count n = b.passes.count n ∧ a.rest n = b.rest n := by
  have hab := mono hsel hrank hb hasingle hbsingle (hedge a) (fun n h => (htask n h).le)
    fun n hr hs => (hchoice n hr hs).ge
  have hba := mono hsel hrank ha hbsingle hasingle (hedge b) (fun n h => (htask n h).ge)
    fun n hr hs => (hchoice n hr hs).le
  have heq : a.incoming n = b.incoming n :=
    le_antisymm (incoming_mono hsel fun m _ => (hab m).1)
      (incoming_mono hsel fun m _ => (hba m).1)
  refine ⟨le_antisymm (hab n).1 (hba n).1, ?_⟩
  have htaken : a.taken n = b.taken n := le_antisymm (hab n).2 (hba n).2
  have := a.rest_add_taken n
  rw [heq, ← b.rest_add_taken n, htaken] at this
  exact add_right_cancel this

end Account

/-! ## The account of a trace -/

section

variable (h : Step net sel fin M p M')
include h

theorem Step.arriving_mem {e : N × E} (he : e ∈ p.sent) :
    arriving e ∈ M' := by
  have hsends : ∀ es : List (N × E), e ∈ es → ∀ R : Marking N E, arriving e ∈ R + sends es :=
    fun es hes R => mem_add.mpr (.inr (mem_sends.mpr ⟨e, hes, rfl⟩))
  cases h with
  | move h =>
    cases h with
    | park => simp at he
    | pass | fire => exact hsends _ he _
  | finish => exact hsends _ he _
  | wake => simp at he

/-- A step leaves the tokens of other nodes alone. -/
theorem Step.mem_of_ne {u : Tok N E} (hu : u ∈ M)
    (hne : u.node ≠ p.node) : u ∈ M' := by
  have herase : ∀ t : Tok N E, u.node ≠ t.node → ∀ R : Marking N E, u ∈ M.erase t + R :=
    fun t ht R => mem_add.mpr
      (.inl ((mem_erase_of_ne fun h => ht (congrArg Tok.node h)).mpr hu))
  cases h with
  | move h =>
    cases h with
    | park | pass => exact herase _ hne _
    | fire => exact mem_add.mpr (.inl (mem_filter.mpr ⟨hu, hne⟩))
  | finish | wake => exact herase _ hne _

/-- A step leaves the other nodes as they are, apart from what it sends there. -/
theorem Step.viaAt_of_ne (hne : p.node ≠ n)
    (hsent : ∀ e ∈ p.sent, e.1 ≠ n) : viaAt M' n = viaAt M n := by
  have hbal := h.balanceAt n
  have harr : viasTo p.sent n = 0 := by
    simpa [viasTo, List.filter_eq_nil_iff] using hsent
  simpa [takenAt_single, arrivedAt_single, hne, harr] using hbal

/-- What holds between the steps: tokens wait only where they may, and a complete AND
join has a token it has still to look at. -/
structure Alert (net : Net N E) (M : Marking N E) : Prop where
  through : ∀ t ∈ M, net.role t.node = some .pass ∨ net.role t.node = some .xorJoin →
    t.active = true
  and : ∀ n, net.role n = some .andJoin → Complete net M n → ActiveAt M n

/-- Every token after a step is an old one, a sent one, or the one that was parked or
woken. -/
theorem Step.mem_cases (ht : t ∈ M') :
    t ∈ M ∨ t.active = true ∨ (t.node = p.node ∧ Parks net sel M t.node) := by
  have hsends : ∀ es : List (N × E), t ∈ sends es → t.active = true := by
    intro es h
    obtain ⟨e, -, rfl⟩ := mem_sends.mp h
    rfl
  have hpassed : ∀ u es, t ∈ M.erase u + sends es → t ∈ M ∨ t.active = true :=
    fun u es h => (mem_add.mp h).imp mem_of_mem_erase (hsends es)
  cases h with
  | move h =>
    cases h with
    | park _ _ why =>
      rcases mem_add.mp ht with h | h
      · exact .inl (mem_of_mem_erase h)
      · rw [mem_singleton.mp h]
        exact .inr (.inr ⟨rfl, why⟩)
    | pass => exact (hpassed _ _ ht).imp_right .inl
    | fire =>
      rcases mem_add.mp ht with h | h
      · exact .inl (mem_filter.mp h).1
      · exact .inr (.inl (hsends _ h))
  | finish => exact (hpassed _ _ ht).imp_right .inl
  | wake =>
    rcases mem_add.mp ht with h | h
    · exact .inl (mem_of_mem_erase h)
    · rw [mem_singleton.mp h]
      exact .inr (.inl rfl)

end

theorem Step.alert (hfin : ∀ n, fin n → net.role n = some .task) (h : Step net sel fin M p M')
    (hal : Alert net M) : Alert net M' := by
  constructor
  · intro t ht hr
    rcases h.mem_cases ht with hmem | ha | ⟨-, hparks⟩
    · exact hal.through t hmem hr
    · exact ha
    · rcases hparks with h | ⟨h, -⟩ | ⟨h, -⟩ | ⟨h, -⟩ <;> rw [h] at hr <;>
        rcases hr with hr | hr <;> cases hr
  · intro n hr hcomp
    by_cases hsent : ∃ e ∈ p.sent, e.1 = n
    · obtain ⟨e, he, rfl⟩ := hsent
      exact ⟨arriving e, h.arriving_mem he, rfl, rfl⟩
    push Not at hsent
    by_cases hn : p.node = n
    · cases h with
      | move h =>
        cases h with
        | @park t ht ha why =>
          have hstep : Step net sel fin M _ _ := .move (.park ht ha why)
          have hsame : viaAt (M.erase t + {t.parked}) n = viaAt M n := by
            simpa [takenAt_single, arrivedAt_single, viasTo] using hstep.balanceAt n
          rcases why with h | ⟨h, -⟩ | ⟨-, h⟩ | ⟨h, -⟩
          · rw [← hn, h] at hr; cases hr
          · rw [← hn, h] at hr; cases hr
          · refine absurd ?_ h
            rw [Complete, hsame] at hcomp
            rw [show t.node = n from hn]
            exact hcomp
          · rw [← hn, h] at hr; cases hr
        | pass ht ha why =>
          rcases why with ⟨h, -⟩ | ⟨h, -⟩ <;> rw [← hn, h] at hr <;> cases hr
        | @fire t ht ha why =>
          obtain ⟨e, he⟩ := List.exists_mem_of_ne_nil _ hcomp.1
          obtain ⟨u, hu, hun, -⟩ := mem_viaAt.mp (hcomp.2 e he)
          rcases mem_add.mp hu with hu | hu
          · exact absurd (hun.trans hn.symm) (mem_filter.mp hu).2
          · obtain ⟨e, he, rfl⟩ := mem_sends.mp hu
            exact absurd hun (hsent e he)
      | finish ht ha hf => rw [← hn, hfin _ hf] at hr; cases hr
      | wake ht ha why => rw [← hn, why] at hr; cases hr
    · rw [Complete, h.viaAt_of_ne hn hsent] at hcomp
      obtain ⟨u, hu, hun, hua⟩ := hal.and n hr hcomp
      exact ⟨u, h.mem_of_ne hu (fun h => hn (h.symm.trans hun)), hun, hua⟩

section

omit [DecidableEq E]

/-- The tokens waiting at a node. -/
def held (M : Marking N E) (n : N) : Marking N E := M.filter fun t => t.node = n ∧ t.active = false

theorem held_add (M M' : Marking N E) (n : N) : held (M + M') n = held M n + held M' n :=
  filter_add _ _ _

theorem held_sends (es : List (N × E)) (n : N) : held (sends es) n = 0 := by
  refine filter_eq_nil.mpr fun t ht h => ?_
  obtain ⟨e, -, rfl⟩ := mem_sends.mp ht
  simp at h

/-- Where nothing is active, everything at a node waits there. -/
theorem viaAt_eq_held (hquiet : ∀ t ∈ M, t.active = false) (n : N) :
    viaAt M n = (held M n).map Tok.via := by
  rw [viaAt, held]
  refine congrArg (map Tok.via) (filter_congr fun t ht => ?_)
  simp [hquiet t ht]

end

theorem held_erase (ht : t ∈ M) (h : ¬ (t.node = n ∧ t.active = false)) :
    held (M.erase t) n = held M n := by
  conv_rhs => rw [← cons_erase ht]
  exact (filter_cons_of_neg (p := fun u : Tok N E => u.node = n ∧ u.active = false) _
    h).symm

/-- Where the selection is made, a choice neither parks a token nor takes a parked one. -/
theorem Move.held_choice (h : Move net sel M p M') (hr : net.role n = some .choice)
    (hsel : sel n ≠ none) : held M' n = held M n := by
  cases h with
  | @park t ht ha why =>
    have hne : t.node ≠ n := by
      rintro rfl
      rcases why with h | ⟨-, h⟩ | ⟨h, -⟩ | ⟨h, -⟩
      · rw [h] at hr; cases hr
      · exact hsel h
      · rw [h] at hr; cases hr
      · rw [h] at hr; cases hr
    rw [held_add, held_erase ht (by simp [ha])]
    simp [held, hne]
  | pass ht ha why => rw [held_add, held_sends, add_zero, held_erase ht (by simp [ha])]
  | @fire t ht ha why =>
    have hne : n ≠ t.node := by
      rintro rfl
      rcases why with ⟨h, -⟩ | h | ⟨h, -⟩ <;> rw [h] at hr <;> cases hr
    rw [held_add, held_sends, add_zero, held, held, filter_filter]
    refine filter_congr fun u _ => and_iff_left_of_imp ?_
    rintro ⟨rfl, -⟩
    exact hne

/-- Moves take nothing from the nodes that are finished from outside. -/
theorem Trace.takenAt_task (h : Trace (Move net sel) M ps M')
    (hr : net.role n = some .task) : takenAt ps n = 0 := by
  induction h with
  | nil => rfl
  | snoc _ hm ih =>
    rw [takenAt_append, ih, zero_add, takenAt_single]
    split_ifs with hn
    · subst hn
      cases hm with
      | park => rfl
      | pass _ _ why => rcases why with ⟨h, -⟩ | ⟨h, -⟩ <;> rw [h] at hr <;> cases hr
      | fire _ _ why => rcases why with ⟨h, -⟩ | h | ⟨h, -⟩ <;> rw [h] at hr <;> cases hr
    · rfl

/-- The steps of `R` follow the net under selections that `sel` completes. -/
def Follows (net : Net N E) (sel : Selection N E) (fin : N → Prop)
    (R : Marking N E → Passage N E → Marking N E → Prop) : Prop :=
  ∀ M p M', R M p M' →
    ∃ sel', (∀ n es, sel' n = some es → sel n = some es) ∧ Step net sel' fin M p M'

theorem Trace.lawful_of_follows (hfin : ∀ n, fin n → net.role n = some .task)
    (hR : Follows net sel fin R) (h : Trace R M ps M') : ∀ p ∈ ps, p.Lawful net sel := by
  induction h with
  | nil => simp
  | snoc _ hl ih =>
    obtain ⟨sel', hle, hstep⟩ := hR _ _ _ hl
    exact List.forall_mem_append.mpr ⟨ih, List.forall_mem_singleton.mpr (hstep.lawful hfin hle)⟩

def Account.ofTrace (hac : ∀ n, ¬ net.Reaches n n)
    (hsel : ∀ n es, sel n = some es → es ⊆ net.out n)
    (hfin : ∀ n, fin n → net.role n = some .task) (hR : Follows net sel fin R)
    (h : Trace R M₀ ps M) : Account net sel M₀ where
  passes := TokenNet.passes ps
  taken := takenAt ps
  rest := viaAt M
  balance n := by
    rw [← arrivedAt_eq_bind (h.lawful_of_follows hfin hR) n]
    exact h.balanceAt (fun M p M' hl => (hR M p M' hl).imp fun _ h => h.2) n
  taken_eq_zero n := takenAt_eq_zero
  count_le_card n := count_passes_le_card n
  card_taken n h1 h2 h3 := card_takenAt (h.lawful_of_follows hfin hR) h1 h2 h3
  count_le_count n hr e he := count_passes_le_count (h.lawful_of_follows hfin hR) hr he
  known n hn := role_of_mem_passes (h.lawful_of_follows hfin hR) hn
  once n hr := by
    have honce := h.orJoin_once (hac n) hfin (fun M p M' hl => by
      obtain ⟨sel', hle, hstep⟩ := hR M p M' hl
      exact ⟨sel', fun n es hs => hsel n es (hle n es hs), hstep⟩) hr
    refine honce.imp_right fun ⟨h1, hclear⟩ => ⟨h1, fun m hm => ?_⟩
    rw [eq_zero_iff_forall_notMem]
    intro x hx
    obtain ⟨t, ht, rfl, -⟩ := mem_viaAt.mp hx
    exact hclear t ht hm

theorem Account.ofTrace_settled (hac : ∀ n, ¬ net.Reaches n n)
    (hsel : ∀ n es, sel n = some es → es ⊆ net.out n)
    (hfin : ∀ n, fin n → net.role n = some .task) (hR : Follows net sel fin R)
    (h : Trace R M₀ ps M) (hstart : Alert net M₀) (hquiet : ∀ t ∈ M, t.active = false)
    (hfed : Fed net M) : (Account.ofTrace hac hsel hfin hR h).Settled := by
  have hal : Alert net M := h.invariant
    (fun M p M' hl => by
      obtain ⟨sel', -, hstep⟩ := hR M p M' hl
      exact hstep.alert hfin) hstart
  have hnone : ∀ n, ¬ ActiveAt M n := by
    rintro n ⟨t, ht, -, ha⟩
    rw [hquiet t ht] at ha
    cases ha
  refine ⟨fun n hr => ?_, fun n hr hcomp => ?_, fun n hr hrest => ?_⟩
  · refine eq_zero_iff_forall_notMem.mpr fun x hx => ?_
    obtain ⟨t, ht, rfl, -⟩ := mem_viaAt.mp hx
    have := hal.through t ht hr
    rw [hquiet t ht] at this
    cases this
  · exact hnone n (hal.and n hr hcomp)
  · obtain ⟨x, hx⟩ := exists_mem_of_ne_zero hrest
    obtain ⟨t, ht, rfl, -⟩ := mem_viaAt.mp hx
    by_contra hno
    push Not at hno
    refine hfed _ hr ⟨⟨t, ht, rfl, hquiet t ht⟩, hnone _, ?_⟩
    rintro ⟨u, hu, -, hur⟩
    have hz := hno u.node hur
    have : u.via ∈ viaAt M u.node := mem_viaAt.mpr ⟨u, hu, rfl, rfl⟩
    rw [show viaAt M u.node = 0 from hz] at this
    simp at this

theorem Account.incoming_edges (hsel : ∀ n es, sel n = some es → es ⊆ net.out n)
    (hnet : ∀ m n e, (n, e) ∈ net.out m → e ∈ net.inc n)
    (hedge : ∀ n, net.role n = some .andJoin → ∀ x ∈ viaAt M₀ n, ∃ e ∈ net.inc n, x = some e)
    (a : Account net sel M₀) (n : N) (hr : net.role n = some .andJoin) :
    ∀ x ∈ a.incoming n, ∃ e ∈ net.inc n, x = some e := by
  intro x hx
  rcases mem_add.mp hx with hx | hx
  · exact hedge n hr x hx
  · obtain ⟨m, -, hx⟩ := mem_bind.mp hx
    simp only [viasTo, mem_coe, List.mem_map, List.mem_filter, decide_eq_true_eq] at hx
    obtain ⟨⟨k, e⟩, ⟨he, rfl⟩, rfl⟩ := hx
    exact ⟨e, hnet m _ e (sentBy_subset hsel m he), rfl⟩

theorem Account.ofTrace_singleAt (hac : ∀ n, ¬ net.Reaches n n)
    (hsel : ∀ n es, sel n = some es → es ⊆ net.out n)
    (hfin : ∀ n, fin n → net.role n = some .task) (hR : Follows net sel fin R)
    (h : Trace R M₀ ps M)
    (hand : ∀ p ∈ ps, net.role p.node = some .andJoin → ∀ x, p.taken.count x ≤ 1)
    (hxor : ∀ p ∈ ps, net.role p.node = some .xorJoin → p.taken.card ≤ 1) (n : N) :
    (Account.ofTrace hac hsel hfin hR h).SingleAt n where
  and hr x := le_count_passes (f := Multiset.countAddMonoidHom x) fun p hp hn =>
    hand p hp (hn ▸ hr) x
  xor hr := le_count_passes (f := Multiset.cardHom) fun p hp hn => hxor p hp (hn ▸ hr)

/-- **Two traces that finished the same tokens end alike**, if neither leaves a token that
could move and in neither a join takes two tokens as one. -/
theorem Trace.viaAt_eq {qs : List (Passage N E)} {M₁ M₂ : Marking N E}
    (hac : ∀ n, ¬ net.Reaches n n) (hrank : ∀ m n, net.Adj m n → rank m < rank n)
    (hsel : ∀ n es, sel n = some es → es ⊆ net.out n)
    (hnet : ∀ m n e, (n, e) ∈ net.out m → e ∈ net.inc n)
    (hfin : ∀ n, fin n → net.role n = some .task) (hR : Follows net sel fin R)
    (h₁ : Trace R M₀ ps M₁) (h₂ : Trace R M₀ qs M₂) (hstart : Alert net M₀)
    (hedge : ∀ n, net.role n = some .andJoin → ∀ x ∈ viaAt M₀ n, ∃ e ∈ net.inc n, x = some e)
    (hq₁ : ∀ t ∈ M₁, t.active = false) (hq₂ : ∀ t ∈ M₂, t.active = false)
    (hf₁ : Fed net M₁) (hf₂ : Fed net M₂)
    (hand : ∀ p ∈ ps ++ qs, net.role p.node = some .andJoin → ∀ x, p.taken.count x ≤ 1)
    (hxor : ∀ p ∈ ps ++ qs, net.role p.node = some .xorJoin → p.taken.card ≤ 1)
    (htask : ∀ n, net.role n = some .task → takenAt ps n = takenAt qs n)
    (hchoice : ∀ n, net.role n = some .choice → sel n ≠ none → viaAt M₁ n = viaAt M₂ n) (n : N) :
    viaAt M₁ n = viaAt M₂ n := by
  have hsingle₁ := Account.ofTrace_singleAt hac hsel hfin hR h₁
    (fun p hp => hand p (List.mem_append_left _ hp))
    (fun p hp => hxor p (List.mem_append_left _ hp))
  have hsingle₂ := Account.ofTrace_singleAt hac hsel hfin hR h₂
    (fun p hp => hand p (List.mem_append_right _ hp))
    (fun p hp => hxor p (List.mem_append_right _ hp))
  exact (Account.determined hsel hrank
    (Account.ofTrace_settled hac hsel hfin hR h₁ hstart hq₁ hf₁)
    (Account.ofTrace_settled hac hsel hfin hR h₂ hstart hq₂ hf₂) hsingle₁ hsingle₂
    (fun a => a.incoming_edges hsel hnet hedge) htask hchoice n).2

end TokenNet
