import Mathlib.Algebra.BigOperators.Group.Multiset.Basic

/-!
# A token game with AND, XOR and OR joins

Tokens move over the edges of a directed graph.  A token is active until its node
has looked at it; then it moved on, or it waits.  What a node does is its `Role`:
it passes tokens on, selects branches, holds a token until its task is finished,
or joins.

An OR join fires when no other token can reach it.  That test is not local, and
two facts about it are proved here once and for all: after an OR join fired, no
token reaches it again (`Step.cleared_of_fire`, `Step.cleared`), and an OR join
with a waiting token is fed by another token unless a selection took the last
feeder elsewhere (`Step.fed`).

Everything is over arbitrary types of nodes and edge names.
-/

namespace TokenNet

open Multiset

/-- What a node does with the tokens that reach it. -/
inductive Role where
  | pass | choice | task | andJoin | xorJoin | orJoin
  deriving DecidableEq, Repr

/-- A graph of nodes with roles.  An outgoing edge is its target with the name of
the edge; the incoming edges are known by name. -/
structure Net (N E : Type) where
  role : N → Option Role
  out : N → List (N × E)
  inc : N → List E

/-- A token: where it is, the edge it came by, and whether its node has still to
look at it. -/
structure Tok (N E : Type) where
  node : N
  via : Option E
  active : Bool
  deriving DecidableEq

/-- The live tokens. -/
abbrev Marking (N E : Type) := Multiset (Tok N E)

/-- What a move did: the tokens it took at a node, by the edge they came by, and
the edges it sent a token over. -/
structure Passage (N E : Type) where
  node : N
  taken : Multiset (Option E)
  sent : List (N × E)

variable {N E : Type}

namespace Tok

/-- The same token after its node has looked at it. -/
def parked (t : Tok N E) : Tok N E := { t with active := false }

/-- The same token when its node is to look at it again. -/
def awake (t : Tok N E) : Tok N E := { t with active := true }

/-- Where a token is, whatever its state. -/
def spot (t : Tok N E) : N × Option E := (t.node, t.via)

variable (t : Tok N E)
include t

@[simp] theorem parked_node : t.parked.node = t.node := rfl
@[simp] theorem parked_via : t.parked.via = t.via := rfl
@[simp] theorem parked_active : t.parked.active = false := rfl
@[simp] theorem spot_parked : t.parked.spot = t.spot := rfl
@[simp] theorem awake_node : t.awake.node = t.node := rfl
@[simp] theorem awake_active : t.awake.active = true := rfl
@[simp] theorem spot_awake : t.awake.spot = t.spot := rfl

end Tok

/-- A fresh token at the end of an edge. -/
def arriving (e : N × E) : Tok N E := ⟨e.1, some e.2, true⟩

@[simp] theorem arriving_node (e : N × E) : (arriving e).node = e.1 := rfl
@[simp] theorem arriving_via (e : N × E) : (arriving e).via = some e.2 := rfl
@[simp] theorem arriving_active (e : N × E) : (arriving e).active = true := rfl

/-- One fresh token for each edge. -/
def sends (es : List (N × E)) : Marking N E := ↑(es.map arriving)

theorem mem_sends {es : List (N × E)} {t : Tok N E} : t ∈ sends es ↔ ∃ e ∈ es, arriving e = t := by
  simp [sends, List.mem_map]

theorem map_spot_sends (es : List (N × E)) :
    (sends es).map Tok.spot = (↑(es.map fun e => (e.1, some e.2)) : Multiset (N × Option E)) := by
  simp only [sends, map_coe, List.map_map]
  rfl

/-- A branch selection: the edges a choice takes, `none` while it is undecided. -/
abbrev Selection (N E : Type) := N → Option (List (N × E))

namespace Net

variable (net : Net N E)

/-- Some edge leads from one node to the other. -/
def Adj (a b : N) : Prop := ∃ e, (b, e) ∈ net.out a

/-- A path of at least one edge. -/
def Reaches (a b : N) : Prop := Relation.TransGen net.Adj a b

/-- An edge leads to a node or to a node before it. -/
def Leads (n j : N) : Prop := n = j ∨ net.Reaches n j

theorem reaches_iff_leads {a j : N} : net.Reaches a j ↔ ∃ e ∈ net.out a, net.Leads e.1 j := by
  constructor
  · intro h
    induction h using Relation.TransGen.head_induction_on with
    | single h =>
      obtain ⟨e, he⟩ := h
      exact ⟨_, he, .inl rfl⟩
    | head h hr _ =>
      obtain ⟨e, he⟩ := h
      exact ⟨_, he, .inr hr⟩
  · rintro ⟨⟨n, e⟩, he, hn | hn⟩
    · obtain rfl : n = j := hn
      exact .single ⟨e, he⟩
    · exact .head ⟨e, he⟩ hn

end Net

/-- What a choice sends is what was selected; every other node sends over all
its edges. -/
def Net.sentBy (net : Net N E) (sel : Selection N E) (n : N) : List (N × E) :=
  if net.role n = some .choice then (sel n).getD [] else net.out n

theorem sentBy_of_ne_choice {net : Net N E} {sel : Selection N E} {n : N}
    (h : net.role n ≠ some .choice) : net.sentBy sel n = net.out n := by
  simp [Net.sentBy, h]

/-- A node sends over its own edges. -/
theorem sentBy_subset {net : Net N E} {sel : Selection N E}
    (hsel : ∀ n es, sel n = some es → es ⊆ net.out n) (m : N) : net.sentBy sel m ⊆ net.out m := by
  unfold Net.sentBy
  split_ifs with hc
  · cases hs : sel m with
    | none => simp
    | some es => simpa using hsel m es hs
  · exact List.Subset.refl _

section Game

variable (net : Net N E)

/-- A token at another node can still reach `j`. -/
def Coming (M : Marking N E) (j : N) : Prop := ∃ t ∈ M, t.node ≠ j ∧ net.Reaches t.node j

/-- When a token moves on by itself, over the given edges. -/
def Passes (sel : Selection N E) (n : N) (es : List (N × E)) : Prop :=
  (net.role n = some .pass ∧ es = net.out n) ∨ (net.role n = some .choice ∧ sel n = some es)

variable [DecidableEq N]

/-- The edges by which the tokens at a node came. -/
def viaAt (M : Marking N E) (n : N) : Multiset (Option E) :=
  (M.filter fun t => t.node = n).map Tok.via

theorem mem_viaAt {M : Marking N E} {n : N} {x : Option E} :
    x ∈ viaAt M n ↔ ∃ t ∈ M, t.node = n ∧ t.via = x := by
  simp [viaAt, and_assoc]

/-- A token is present for every incoming edge, and there is one. -/
def Complete (M : Marking N E) (n : N) : Prop :=
  net.inc n ≠ [] ∧ ∀ e ∈ net.inc n, some e ∈ viaAt M n

/-- When a token stays at its node. -/
def Parks (sel : Selection N E) (M : Marking N E) (n : N) : Prop :=
  net.role n = some .task ∨ (net.role n = some .choice ∧ sel n = none) ∨
    (net.role n = some .andJoin ∧ ¬ Complete net M n) ∨
    (net.role n = some .orJoin ∧ Coming net M n)

/-- When a join takes all its tokens and fires. -/
def Fires (M : Marking N E) (n : N) : Prop :=
  (net.role n = some .andJoin ∧ Complete net M n) ∨ net.role n = some .xorJoin ∨
    (net.role n = some .orJoin ∧ ¬ Coming net M n)

variable [DecidableEq E]

/-- A move of an active token: its node parks it, passes it on, or fires. -/
inductive Move (sel : Selection N E) : Marking N E → Passage N E → Marking N E → Prop where
  | park {M : Marking N E} {t : Tok N E} (ht : t ∈ M) (ha : t.active = true)
      (why : Parks net sel M t.node) : Move sel M ⟨t.node, 0, []⟩ (M.erase t + {t.parked})
  | pass {M : Marking N E} {t : Tok N E} {es : List (N × E)} (ht : t ∈ M) (ha : t.active = true)
      (why : Passes net sel t.node es) :
      Move sel M ⟨t.node, {t.via}, es⟩ (M.erase t + sends es)
  | fire {M : Marking N E} {t : Tok N E} (ht : t ∈ M) (ha : t.active = true)
      (why : Fires net M t.node) :
      Move sel M ⟨t.node, viaAt M t.node, net.out t.node⟩
        (M.filter (fun u => u.node ≠ t.node) + sends (net.out t.node))

/-- A step of the game: a move, or something done from outside.  A waiting token is
finished, where `fin` allows it, or a choice is to look at one again. -/
inductive Step (sel : Selection N E) (fin : N → Prop) :
    Marking N E → Passage N E → Marking N E → Prop where
  | move {M M' : Marking N E} {p : Passage N E} (h : Move net sel M p M') : Step sel fin M p M'
  | finish {M : Marking N E} {t : Tok N E} (ht : t ∈ M) (ha : t.active = false)
      (hfin : fin t.node) :
      Step sel fin M ⟨t.node, {t.via}, net.out t.node⟩ (M.erase t + sends (net.out t.node))
  | wake {M : Marking N E} {t : Tok N E} (ht : t ∈ M) (ha : t.active = false)
      (why : net.role t.node = some .choice) :
      Step sel fin M ⟨t.node, 0, []⟩ (M.erase t + {t.awake})

variable {net} {sel : Selection N E} {fin : N → Prop} {M M' : Marking N E} {p : Passage N E}
  {n j : N} {t u : Tok N E} {R : Marking N E} {es : List (N × E)}

/-! ## Conservation -/

/-- The spots a passage empties. -/
def Passage.removed (p : Passage N E) : Multiset (N × Option E) := p.taken.map fun x => (p.node, x)

/-- The spots a passage fills. -/
def Passage.added (p : Passage N E) : Multiset (N × Option E) :=
  ↑(p.sent.map fun e => (e.1, some e.2))

private theorem erase_add_spot (ht : t ∈ M) :
    (M.erase t).map Tok.spot + {t.spot} = M.map Tok.spot := by
  conv_rhs => rw [← cons_erase ht]
  rw [map_cons, ← singleton_add, add_comm]

/-- **A move keeps the balance of tokens**: what is left together with what was
taken is what was there together with what was sent. -/
theorem Step.balance (h : Step net sel fin M p M') :
    M'.map Tok.spot + p.removed = M.map Tok.spot + p.added := by
  cases h with
  | move h =>
    cases h with
    | park ht ha why =>
      rw [map_add, map_singleton, Tok.spot_parked, erase_add_spot ht]
      simp [Passage.removed, Passage.added]
    | pass ht ha why =>
      rw [map_add, map_spot_sends, Passage.removed, Passage.added,
        map_singleton, add_right_comm]
      rw [show (_, _) = Tok.spot _ from rfl, erase_add_spot ht]
    | @fire t ht ha why =>
      rw [map_add, map_spot_sends, Passage.removed, Passage.added, add_right_comm]
      congr 1
      have hsplit := filter_add_not (fun u : Tok N E => u.node = t.node) M
      conv_rhs => rw [← hsplit]
      rw [map_add, add_comm]
      congr 1
      rw [viaAt, map_map]
      apply map_congr rfl
      intro u hu
      have := (mem_filter.mp hu).2
      simp [Tok.spot, this]
  | finish ht ha hfin =>
    rw [map_add, map_spot_sends, Passage.removed, Passage.added,
      map_singleton, add_right_comm]
    rw [show (_, _) = Tok.spot _ from rfl, erase_add_spot ht]
  | wake ht ha why =>
    rw [map_add, map_singleton, Tok.spot_awake, erase_add_spot ht]
    simp [Passage.removed, Passage.added]

/-! ## An OR join that fired -/

/-- No token is at `j` or can reach it. -/
def Cleared (net : Net N E) (M : Marking N E) (j : N) : Prop := ∀ t ∈ M, ¬ net.Leads t.node j

/-- Every token after a move was there before, at most parked since, or came over
an edge from a node that had one; and only if the node could send over that
edge. -/
theorem Step.origin (hsel : ∀ n es, sel n = some es → es ⊆ net.out n)
    (h : Step net sel fin M p M') :
    ∀ t ∈ M', (∃ u ∈ M, u.node = t.node) ∨ ∃ u ∈ M, net.Adj u.node t.node := by
  intro t ht'
  have hsent : ∀ (u : Tok N E) (es : List (N × E)), u ∈ M → es ⊆ net.out u.node →
      t ∈ sends es → ∃ u ∈ M, net.Adj u.node t.node := by
    intro u es hu hes ht
    obtain ⟨e, he, rfl⟩ := mem_sends.mp ht
    exact ⟨u, hu, e.2, hes he⟩
  cases h with
  | move h =>
    cases h with
    | park ht ha why =>
      rcases mem_add.mp ht' with h | h
      · exact .inl ⟨t, mem_of_mem_erase h, rfl⟩
      · rw [mem_singleton.mp h]
        exact .inl ⟨_, ht, rfl⟩
    | pass ht ha why =>
      rcases mem_add.mp ht' with h | h
      · exact .inl ⟨t, mem_of_mem_erase h, rfl⟩
      · refine .inr (hsent _ _ ht ?_ h)
        rcases why with ⟨-, rfl⟩ | ⟨-, hs⟩
        · exact fun _ h => h
        · exact hsel _ _ hs
    | fire ht ha why =>
      rcases mem_add.mp ht' with h | h
      · exact .inl ⟨t, (mem_filter.mp h).1, rfl⟩
      · exact .inr (hsent _ _ ht (fun _ h => h) h)
  | finish ht ha hfin =>
    rcases mem_add.mp ht' with h | h
    · exact .inl ⟨t, mem_of_mem_erase h, rfl⟩
    · exact .inr (hsent _ _ ht (fun _ h => h) h)
  | wake ht ha why =>
    rcases mem_add.mp ht' with h | h
    · exact .inl ⟨t, mem_of_mem_erase h, rfl⟩
    · rw [mem_singleton.mp h]
      exact .inl ⟨_, ht, rfl⟩

theorem Step.cleared (hsel : ∀ n es, sel n = some es → es ⊆ net.out n)
    (h : Step net sel fin M p M') (hc : Cleared net M j) : Cleared net M' j := by
  intro t ht hlead
  rcases h.origin hsel t ht with ⟨u, hu, heq⟩ | ⟨u, hu, hadj⟩
  · exact hc u hu (heq ▸ hlead)
  · refine hc u hu (.inr ?_)
    rcases hlead with rfl | hr
    · exact .single hadj
    · exact .head hadj hr

/-- A move happens at a node that has a token. -/
theorem Step.exists_mem (h : Step net sel fin M p M') : ∃ t ∈ M, t.node = p.node := by
  cases h with
  | move h =>
    cases h with
    | park ht | pass ht | fire ht => exact ⟨_, ht, rfl⟩
  | finish ht | wake ht => exact ⟨_, ht, rfl⟩

/-- **When an OR join that lies on no cycle fires, it is cleared.** -/
theorem Step.cleared_of_fire (hac : ¬ net.Reaches p.node p.node)
    (hfin : ∀ n, fin n → net.role n = some .task)
    (h : Step net sel fin M p M') (hrole : net.role p.node = some .orJoin) (htaken : p.taken ≠ 0) :
    Cleared net M' p.node := by
  cases h with
  | move h =>
    cases h with
    | park ht ha why => exact absurd rfl htaken
    | pass ht ha why =>
      rcases why with ⟨hr, -⟩ | ⟨hr, -⟩ <;> rw [hr] at hrole <;> cases hrole
    | @fire t ht ha why =>
      have hno : ¬ Coming net M t.node := by
        rcases why with ⟨hr, -⟩ | hr | ⟨-, hno⟩
        · rw [hr] at hrole; cases hrole
        · rw [hr] at hrole; cases hrole
        · exact hno
      intro u hu hlead
      rcases mem_add.mp hu with h | h
      · obtain ⟨hmem, hne⟩ := mem_filter.mp h
        rcases hlead with heq | hr
        · exact hne heq
        · exact hno ⟨u, hmem, hne, hr⟩
      · obtain ⟨e, he, rfl⟩ := mem_sends.mp h
        exact hac (net.reaches_iff_leads.mpr ⟨e, he, hlead⟩)
  | finish ht ha hf =>
    rw [hfin _ hf] at hrole
    cases hrole
  | wake ht ha why => exact absurd rfl htaken

/-! ## An OR join that waits -/

section

omit [DecidableEq E]

theorem Parks.coming (h : Parks net sel M n) (hrole : net.role n = some .orJoin) :
    Coming net M n := by
  rcases h with h | ⟨h, -⟩ | ⟨h, -⟩ | ⟨-, hcoming⟩
  · rw [h] at hrole; cases hrole
  · rw [h] at hrole; cases hrole
  · rw [h] at hrole; cases hrole
  · exact hcoming

omit [DecidableEq N]

/-- A token waits at `j`. -/
def WaitsAt (M : Marking N E) (j : N) : Prop := ∃ t ∈ M, t.node = j ∧ t.active = false

/-- A token at `j` has not been looked at. -/
def ActiveAt (M : Marking N E) (j : N) : Prop := ∃ t ∈ M, t.node = j ∧ t.active = true

/-- A token waits at `j` and nothing will look at it again: no token at `j` is
active and none can come. -/
def Stranded (net : Net N E) (M : Marking N E) (j : N) : Prop :=
  WaitsAt M j ∧ ¬ ActiveAt M j ∧ ¬ Coming net M j

/-- No OR join is stranded. -/
def Fed (net : Net N E) (M : Marking N E) : Prop :=
  ∀ j, net.role j = some .orJoin → ¬ Stranded net M j

/-- What feeds an OR join: a token not looked at, or one that can come. -/
def Feeds (net : Net N E) (t : Tok N E) (j : N) : Prop :=
  (t.node = j ∧ t.active = true) ∨ (t.node ≠ j ∧ net.Reaches t.node j)

theorem stranded_iff : Stranded net M j ↔ WaitsAt M j ∧ ∀ t ∈ M, ¬ Feeds net t j := by
  simp only [Stranded, ActiveAt, Coming, Feeds]
  grind

/-- A token sent over an edge that leads to `j` feeds it. -/
theorem feeds_arriving {e : N × E} (h : net.Leads e.1 j) : Feeds net (arriving e) j := by
  by_cases heq : e.1 = j
  · exact .inl ⟨heq, rfl⟩
  · exact .inr ⟨heq, h.resolve_left heq⟩

theorem Feeds.reaches (h : Feeds net t j) (hne : t.node ≠ j) : net.Reaches t.node j :=
  (h.resolve_left fun h => hne h.1).2

/-- A token sent on from a node before `j` feeds it. -/
theorem exists_feeds_sent (h : net.Reaches n j) : ∃ v ∈ R + sends (net.out n), Feeds net v j := by
  obtain ⟨e, he, hlead⟩ := net.reaches_iff_leads.mp h
  exact ⟨arriving e, mem_add.mpr (.inr (mem_sends.mpr ⟨e, he, rfl⟩)),
    feeds_arriving hlead⟩

theorem WaitsAt.of_sends (h : WaitsAt (R + sends es) j) : WaitsAt R j := by
  obtain ⟨v, hv, hvj, hva⟩ := h
  rcases mem_add.mp hv with h | h
  · exact ⟨v, h, hvj, hva⟩
  · obtain ⟨e, -, rfl⟩ := mem_sends.mp h
    cases hva

/-- A token of another node does not wait at `j`. -/
theorem WaitsAt.of_singleton (h : WaitsAt (R + {t}) j) (hj : t.node ≠ j) : WaitsAt R j := by
  obtain ⟨v, hv, hvj, hva⟩ := h
  rcases mem_add.mp hv with h | h
  · exact ⟨v, h, hvj, hva⟩
  · rw [mem_singleton.mp h] at hvj
    exact absurd hvj hj

theorem WaitsAt.mono (hsub : R ⊆ M) (h : WaitsAt R j) : WaitsAt M j := by
  obtain ⟨v, hv, hvj, hva⟩ := h
  exact ⟨v, hsub hv, hvj, hva⟩

/-- An OR join does not pass a token on by itself. -/
theorem Passes.ne_orJoin (h : Passes net sel n es) (hrole : net.role j = some .orJoin) : n ≠ j := by
  rintro rfl
  rcases h with ⟨h, -⟩ | ⟨h, -⟩ <;> rw [h] at hrole <;> cases hrole

end

/-- Selecting the edges `es` for the token `t` takes the last feeder of the waiting
OR join `j` elsewhere. -/
def Strands (net : Net N E) (M : Marking N E) (t : Tok N E) (es : List (N × E)) (j : N) : Prop :=
  net.role j = some .orJoin ∧ WaitsAt M j ∧ net.Reaches t.node j ∧
    ¬ ActiveAt (M.erase t) j ∧ ¬ Coming net (M.erase t) j ∧ ∀ e ∈ es, ¬ net.Leads e.1 j

/-- A selection at the node strands no OR join. -/
def Spares (net : Net N E) (sel : Selection N E) (M : Marking N E) (p : Passage N E) : Prop :=
  ∀ t ∈ M, t.node = p.node → t.active = true → net.role t.node = some .choice →
    ∀ es, sel t.node = some es → ∀ j, ¬ Strands net M t es j

/-- A feeder that is not the token removed still feeds. -/
theorem exists_feeds_erase (hu : u ∈ M) (hne : u ≠ t) (hf : Feeds net u j) :
    ∃ v ∈ M.erase t + R, Feeds net v j :=
  ⟨u, mem_add.mpr (.inl ((mem_erase_of_ne hne).mpr hu)), hf⟩

/-- A token that is replaced by one for each of its edges leaves its successors as
feeders. -/
theorem exists_feeds_sends (hu : u ∈ M) (hj : t.node ≠ j) (hf : Feeds net u j) :
    ∃ v ∈ M.erase t + sends (net.out t.node), Feeds net v j := by
  by_cases hut : u = t
  · subst hut
    exact exists_feeds_sent (hf.reaches hj)
  · exact exists_feeds_erase hu hut hf

/-- A token of another node feeds in whatever state it is. -/
theorem exists_feeds_replaced {t' : Tok N E} (hu : u ∈ M) (hj : t.node ≠ j)
    (hnode : t'.node = t.node) (hf : Feeds net u j) : ∃ v ∈ M.erase t + {t'}, Feeds net v j := by
  by_cases hut : u = t
  · subst hut
    have hr := hf.reaches hj
    rw [← hnode] at hr hj
    exact ⟨t', by simp, .inr ⟨hj, hr⟩⟩
  · exact exists_feeds_erase hu hut hf

/-- A selection that does not strand the join leaves a feeder. -/
theorem exists_feeds_select (hrole : net.role j = some .orJoin) (hwait : WaitsAt M j) (hu : u ∈ M)
    (hj : t.node ≠ j) (hf : Feeds net u j) (hkeep : ¬ Strands net M t es j) :
    ∃ v ∈ M.erase t + sends es, Feeds net v j := by
  by_cases hut : u = t
  · subst hut
    by_contra hno
    push Not at hno
    refine hkeep ⟨hrole, hwait, hf.reaches hj, ?_, ?_, ?_⟩
    · rintro ⟨w, hw, hwj, hwa⟩
      exact hno w (mem_add.mpr (.inl hw)) (.inl ⟨hwj, hwa⟩)
    · rintro ⟨w, hw, hwj, hwr⟩
      exact hno w (mem_add.mpr (.inl hw)) (.inr ⟨hwj, hwr⟩)
    · intro e he hlead
      exact hno _ (mem_add.mpr (.inr (mem_sends.mpr ⟨e, he, rfl⟩)))
        (feeds_arriving hlead)
  · exact exists_feeds_erase hu hut hf

theorem Move.exists_feeds (h : Move net sel M p M') (hkeep : Spares net sel M p)
    (hj : net.role j = some .orJoin) (hw : WaitsAt M' j)
    (hfed : WaitsAt M j → ∃ u ∈ M, Feeds net u j) : ∃ u ∈ M', Feeds net u j := by
  cases h with
  | @park t ht ha why =>
    by_cases htj : t.node = j
    · subst htj
      obtain ⟨u, hu, hne, hr⟩ := why.coming hj
      exact exists_feeds_erase hu (fun h => hne (h ▸ rfl)) (.inr ⟨hne, hr⟩)
    · have hwait : WaitsAt (M.erase t) j := hw.of_singleton htj
      obtain ⟨u, hu, hf⟩ := hfed (hwait.mono (erase_subset t M))
      exact exists_feeds_replaced hu htj rfl hf
  | @pass t es ht ha why =>
    have hwait : WaitsAt M j := hw.of_sends.mono (erase_subset t M)
    have htj : t.node ≠ j := why.ne_orJoin hj
    obtain ⟨u, hu, hf⟩ := hfed hwait
    rcases why with ⟨-, rfl⟩ | ⟨hrole, hsel⟩
    · exact exists_feeds_sends hu htj hf
    · exact exists_feeds_select hj hwait hu htj hf (hkeep t ht rfl ha hrole es hsel j)
  | @fire t ht ha why =>
    obtain ⟨v, hv, hvj, hva⟩ := hw.of_sends
    obtain ⟨hvM, hvne⟩ := mem_filter.mp hv
    obtain ⟨u, hu, hf⟩ := hfed ⟨v, hvM, hvj, hva⟩
    -- the feeders at other nodes stay, and those at the node send on
    by_cases hut : u.node = t.node
    · rw [← hut] at hvne ⊢
      exact exists_feeds_sent (hf.reaches fun h => hvne (hvj.trans h.symm))
    · exact ⟨u, mem_add.mpr (.inl (mem_filter.mpr ⟨hu, hut⟩)), hf⟩

/-- A move leaves an OR join fed if it was, unless it is a selection that strands
it. -/
theorem Step.exists_feeds (hfin : ∀ n, fin n → net.role n = some .task)
    (h : Step net sel fin M p M') (hkeep : Spares net sel M p)
    (hj : net.role j = some .orJoin) (hw : WaitsAt M' j)
    (hfed : WaitsAt M j → ∃ u ∈ M, Feeds net u j) : ∃ u ∈ M', Feeds net u j := by
  cases h with
  | move h => exact h.exists_feeds hkeep hj hw hfed
  | @finish t ht ha hf =>
    have htj : t.node ≠ j := by
      rintro rfl
      rw [hfin _ hf] at hj
      cases hj
    obtain ⟨u, hu, hf'⟩ := hfed (hw.of_sends.mono (erase_subset t M))
    exact exists_feeds_sends hu htj hf'
  | @wake t ht ha why =>
    have htj : t.node ≠ j := by
      rintro rfl
      rw [why] at hj
      cases hj
    have hwait : WaitsAt (M.erase t) j := hw.of_singleton htj
    obtain ⟨u, hu, hf⟩ := hfed (hwait.mono (erase_subset t M))
    exact exists_feeds_replaced hu htj rfl hf

/-- **A move keeps every OR join fed unless it is a selection that strands one.** -/
theorem Step.fed (hfin : ∀ n, fin n → net.role n = some .task) (h : Step net sel fin M p M')
    (hkeep : Spares net sel M p) (hfed : Fed net M) : Fed net M' := by
  intro j hj hstr
  rw [stranded_iff] at hstr
  have hbefore : WaitsAt M j → ∃ u ∈ M, Feeds net u j := by
    intro hw
    have := hfed j hj
    rw [stranded_iff] at this
    push Not at this
    exact this hw
  obtain ⟨u, hu, hf⟩ := h.exists_feeds hfin hkeep hj hstr.1 hbefore
  exact hstr.2 u hu hf

end Game

end TokenNet
