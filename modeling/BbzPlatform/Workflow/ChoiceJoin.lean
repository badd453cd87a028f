import BbzPlatform.Workflow.Commute

/-!
# Tokens at an XOR join

An XOR join that fires consumes every token at it, also those the loop has not come to, and puts one
token on its outgoing edge.  Tokens that come to it in one call are therefore counted as one.

## Main definitions

* `cameTo`, `putOn` — the tokens that came to a node, and those it put on an edge.
-/

namespace BbzPlatform.Workflow

open TokenNet List

variable {ι : Type} [DecidableEq ι] {g : DerivedGraph} {events : List (Event ι)}
  {tokens : List (Token ι)} {j : String} {e : GraphEdge}

/-- The tokens that come to a node in a run, the one it starts with included. -/
def cameTo (g : DerivedGraph) (steps : List (Iteration ι)) (j : String) : ℕ :=
  (if g.start = j then 1 else 0) + ((steps.flatMap Iteration.sent).filter (·.1 = j)).length

def putOn (steps : List (Iteration ι)) (j : String) (e : GraphEdge) : ℕ :=
  ((steps.filter (·.nodeKey = j)).flatMap Iteration.sent).count e.arc

theorem step_xorJoin {sel : Selection String String}
    {M M' : Marking String String} {p : Passage String String}
    (h : GameStep g sel M p M') (hj : g.net.role p.node = some .xorJoin) :
    p.taken = viaAt M p.node ∧ p.taken ≠ 0 ∧ p.sent = g.net.out p.node := by
  cases h with
  | move h =>
    cases h with
    | park _ _ why =>
      rcases why with h | ⟨h, -⟩ | ⟨h, -⟩ | ⟨h, -⟩ <;> cases hj.symm.trans h
    | pass _ _ why =>
      rcases why with ⟨h, -⟩ | ⟨h, -⟩ <;> cases hj.symm.trans h
    | @fire t ht =>
      have hmem : t.via ∈ viaAt M t.node := mem_viaAt.mpr ⟨t, ht, rfl, rfl⟩
      refine ⟨rfl, fun hzero => ?_, rfl⟩
      rw [show viaAt M t.node = 0 from hzero] at hmem
      exact Multiset.notMem_zero _ hmem
  | finish _ _ hfin => cases hj.symm.trans hfin
  | wake _ _ why => cases hj.symm.trans why

omit [DecidableEq ι] in
theorem passages_steps (events : List (Event ι)) (j : String) :
    takenAt (events.flatMap (Event.passages g)) j
        = takenAt ((events.flatMap (Event.steps g)).map Iteration.passage) j ∧
      arrivedAt (events.flatMap (Event.passages g)) j
        = arrivedAt ((events.flatMap (Event.steps g)).map Iteration.passage) j := by
  induction events with
  | nil => exact ⟨rfl, rfl⟩
  | cons event events ih =>
    rw [flatMap_cons, flatMap_cons, map_append, takenAt_append,
      takenAt_append, arrivedAt_append, arrivedAt_append, ih.1, ih.2]
    cases event with
    | call c => exact ⟨rfl, rfl⟩
    | decide k => simp [Event.passages, Event.steps, takenAt, arrivedAt,
        viasTo, filter_cons, apply_ite]

/-- **All tokens that came to an XOR join have been taken there.** -/
theorem Reached.card_taken (h : Reached g events tokens) (hj : g.net.role j = some .xorJoin)
    (hseen : ∀ t ∈ tokens, t.nodeKey = j → t.state = .waiting) :
    (((events.flatMap (Event.steps g)).filter (·.nodeKey = j)).map (·.taken.length)).sum
      = cameTo g (events.flatMap (Event.steps g)) j := by
  have hnone : viaAt (marking tokens) j = 0 := by
    refine Multiset.eq_zero_of_forall_notMem fun x hx => ?_
    obtain ⟨y, hy, hnode, -⟩ := mem_viaAt.mp hx
    obtain ⟨t, ht, rfl⟩ := mem_marking.mp hy
    have hactive := h.alert.through _ hy (.inr (by rw [hnode]; exact hj))
    simp [Token.tok, hseen t ht hnode] at hactive
  have hbal := congrArg Multiset.card
    (h.trace.balanceAt (fun _ _ _ hs => hs.imp fun _ hs => hs.2) j)
  rw [hnone, (passages_steps events j).1, (passages_steps events j).2, zero_add,
    Multiset.card_add] at hbal
  have htaken : (takenAt ((events.flatMap (Event.steps g)).map Iteration.passage) j).card
      = (((events.flatMap (Event.steps g)).filter (·.nodeKey = j)).map (·.taken.length)).sum := by
    generalize events.flatMap (Event.steps g) = steps
    induction steps with
    | nil => rfl
    | cons i steps ih =>
      rw [map_cons, takenAt_cons, Multiset.card_add, ih, filter_cons]
      by_cases hi : i.nodeKey = j <;> simp [hi, Iteration.passage]
  rw [← htaken, hbal, cameTo, arrivedAt, viasTo, flatMap_map]
  congr 1
  · by_cases hstart : g.start = j <;> simp [viaAt, Multiset.filter_singleton, hstart]
  · simp [Iteration.passage]

/-- **An XOR join conserves tokens** exactly if it never fires with two of them. -/
theorem xorJoin_conserves_iff (hg : g.WellFormed) (h : Reached g events tokens)
    (hj : g.net.role j = some .xorJoin) (he : e ∈ g.out j)
    (hseen : ∀ t ∈ tokens, t.nodeKey = j → t.state = .waiting) :
    putOn (events.flatMap (Event.steps g)) j e = cameTo g (events.flatMap (Event.steps g)) j ↔
      ∀ i ∈ events.flatMap (Event.steps g), i.nodeKey = j → (present i.before j).length = 1 := by
  have hone : (g.net.out j).count e.arc = 1 := by
    have hsorted : (g.sortedEdges.map (·.key)).Nodup :=
      ((perm_insertionSort _ _).map _).nodup_iff.mpr hg.edges_nodup
    have hkeys : ((g.out j).map (·.key)).Nodup := hsorted.sublist (filter_sublist.map _)
    refine count_eq_one_of_mem (.of_map Prod.snd ?_) (mem_map_of_mem he)
    simpa [DerivedGraph.net, Function.comp_def, GraphEdge.arc] using hkeys
  have hstep : ∀ i ∈ (events.flatMap (Event.steps g)).filter (·.nodeKey = j),
      i.taken.length = (present i.before j).length ∧ 1 ≤ i.taken.length ∧
        i.sent.count e.arc = 1 := by
    intro i hi
    obtain ⟨hmem, hkey⟩ := mem_filter.mp hi
    obtain rfl : i.nodeKey = j := by simpa using hkey
    obtain ⟨sel, -, hstep⟩ := h.steps_sound i hmem
    obtain ⟨htaken, hne, hsent⟩ := step_xorJoin hstep hj
    have hlength := congrArg Multiset.card (htaken.trans (viaAt_live i.before i.nodeKey))
    refine ⟨by simpa [Iteration.passage] using hlength, ?_, ?_⟩
    · exact length_pos_iff.mpr fun h => hne (by simp [Iteration.passage, h])
    · rw [show i.sent = _ from hsent]
      exact hone
  have hall : (∀ i ∈ events.flatMap (Event.steps g), i.nodeKey = j →
      (present i.before j).length = 1) ↔
      ∀ i ∈ (events.flatMap (Event.steps g)).filter (·.nodeKey = j), i.taken.length = 1 := by
    simp only [mem_filter, decide_eq_true_eq, and_imp]
    refine forall₃_congr fun i hi hkey => ?_
    rw [(hstep i (mem_filter.mpr ⟨hi, by simpa using hkey⟩)).1]
  rw [hall, ← h.card_taken hj hseen, putOn]
  generalize (events.flatMap (Event.steps g)).filter (·.nodeKey = j) = steps at hstep
  clear hall
  induction steps with
  | nil => simp
  | cons i steps ih =>
    obtain ⟨⟨-, hle, hput⟩, hrest⟩ := forall_mem_cons.mp hstep
    have hput' : (steps.flatMap Iteration.sent).count e.arc = steps.length := by
      rw [count_flatMap, map_congr_left (g := fun _ => 1)]
      · simp
      · exact fun i hi => (hrest i hi).2.2
    have hsum : steps.length ≤ (steps.map (·.taken.length)).sum := by
      simpa using length_le_sum_of_one_le (steps.map (·.taken.length)) (by
        simpa using fun i hi => (hrest i hi).2.1)
    have hiff := ih hrest
    rw [hput'] at hiff
    rw [flatMap_cons, count_append, hput, hput', map_cons, sum_cons,
      forall_mem_cons]
    refine Iff.trans ?_ (and_congr_right fun _ => hiff)
    omega

/-- Tokens that come to the join in two calls go on as two. -/
theorem rejoining_conserves :
    ∃ (events : List (Event ℕ)) (tokens : _), Reached rejoining.flatten events tokens ∧
      putOn (events.flatMap (Event.steps rejoining.flatten)) "xj" (.plain "j" "xj" "f3") = 2 := by
  have hfirst := rejoiningOrders.first.reached rejoining_reached (by decide)
  have hrun := rejoiningOrders.firstThen.reached hfirst (by decide)
  exact ⟨_, _, hrun, (xorJoin_conserves_iff rejoining_accepted.wellFormed hrun (by decide)
    (mem_singleton_self _) (by decide)).mpr (by decide)⟩

/-- **Tokens that come to the join in one call go on as one.** -/
theorem rejoining_merges :
    ∃ (events : List (Event ℕ)) (tokens : _), Reached rejoining.flatten events tokens ∧
      cameTo rejoining.flatten (events.flatMap (Event.steps rejoining.flatten)) "xj" = 2 ∧
      putOn (events.flatMap (Event.steps rejoining.flatten)) "xj" (.plain "j" "xj" "f3") = 1 := by
  have hsecond := rejoiningOrders.second.reached rejoining_reached (by decide)
  have hrun := rejoiningOrders.secondThen.reached hsecond (by decide)
  exact ⟨_, _, hrun, by decide, by decide⟩

end BbzPlatform.Workflow
