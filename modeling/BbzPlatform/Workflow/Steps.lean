import BbzPlatform.Lib.Raising
import BbzPlatform.Lib.TokenNet.Account
import BbzPlatform.Workflow.Engine

/-!
# The engine plays the token game

The net of a graph has its nodes as roles and its edges as arcs, and the live
entries of a work list are a marking of it.  Every iteration of the engine is a
move of the game on that net (`process_move`), so what the library proves of moves
and traces holds of the engine.

What an iteration did is read off the work lists before and after it: an entry
that was live and is consumed was taken, and the entries behind the old end were
sent.
-/

namespace BbzPlatform.Workflow

open RuleDsl TokenNet Raising Multiset

/-! ## The net of a graph -/

/-- What the engine does with a token at the node; `none` where it raises. -/
def GraphNode.role (n : GraphNode) : Option Role :=
  match n.type with
  | .event => some .pass
  | .function => some .task
  | .connector =>
    match n.connectorDirection with
    | some .split => if n.connectorType = some .and then some .pass else some .choice
    | some .join =>
      match n.connectorType with
      | some .and => some .andJoin
      | some .xor => some .xorJoin
      | _ => some .orJoin
    | none => none
  | .other _ => none

def GraphEdge.arc (e : GraphEdge) : String × String := (e.toKey, e.key)

namespace DerivedGraph

variable (g : DerivedGraph)

def net : Net String String where
  role k := (g.node? k).bind GraphNode.role
  out k := (g.out k).map GraphEdge.arc
  inc k := (g.inc k).map (·.key)

/-- Every endpoint of an edge is a node, so that the index can be built. -/
def Closed : Prop :=
  ∀ e ∈ g.edges, e.fromKey ∈ g.nodes.map (·.key) ∧ e.toKey ∈ g.nodes.map (·.key)

variable {g} {e : GraphEdge}

theorem mem_sortedEdges : e ∈ g.sortedEdges ↔ e ∈ g.edges :=
  (List.perm_insertionSort _ _).mem_iff

theorem mem_out {k : String} : e ∈ g.out k ↔ e ∈ g.edges ∧ e.fromKey = k := by
  simp [out, mem_sortedEdges]

theorem mem_inc {k : String} : e ∈ g.inc k ↔ e ∈ g.edges ∧ e.toKey = k := by
  simp [inc, mem_sortedEdges]

theorem net_adj {a b : String} : g.net.Adj a b ↔ g.Adj a b := by
  simp only [Net.Adj, Adj, net, List.mem_map, GraphEdge.arc, Prod.mk.injEq, mem_out]
  constructor
  · rintro ⟨k, e, ⟨he, hf⟩, ht, -⟩
    exact ⟨e, he, hf, ht⟩
  · rintro ⟨e, he, hf, ht⟩
    exact ⟨e.key, e, ⟨he, hf⟩, ht, rfl⟩

theorem net_reaches {a b : String} : g.net.Reaches a b ↔ g.Reaches a b := by
  have hadj : g.net.Adj = g.Adj := by
    funext a b
    exact propext net_adj
  rw [Net.Reaches, Reaches, hadj]

theorem net_acyclic (hac : g.Acyclic) : ∀ k, ¬ g.net.Reaches k k := fun k h =>
  hac k (net_reaches.mp h)

theorem node?_key {k : String} {n : GraphNode} (h : g.node? k = some n) : n.key = k := by
  simpa using List.find?_some h

theorem mem_descendants (hc : g.Closed) {a b : String} : b ∈ g.descendants a ↔ g.Reaches a b := by
  have hclosed : ∀ k, k ∉ g.nodes.map (·.key) → g.successors k = [] := by
    intro k hk
    rw [successors, List.map_eq_nil_iff, List.eq_nil_iff_forall_not_mem]
    intro e he
    obtain ⟨hmem, rfl⟩ := mem_out.mp he
    exact hk (hc e hmem).1
  have hedge : Search.Edge g.successors = g.Adj := by
    funext k l
    simp [Search.Edge, successors, mem_out, Adj, and_assoc]
  rw [descendants, Search.mem_closure_iff hclosed, hedge, Reaches, Relation.TransGen.head'_iff]
  simp only [← hedge, Search.Edge]

end DerivedGraph

/-- The branches a run takes at a choice split, `none` while it waits for an
operator. -/
def Run.selection (run : Run) : Selection String String := fun k =>
  match run.idx.nodes k with
  | none => none
  | some node =>
    match choose run node with
    | .ok (some (edges, _)) => some (edges.map GraphEdge.arc)
    | _ => none

theorem Run.selection_eq_some {run : Run} {k : String} {arcs : List (String × String)}
    (h : run.selection k = some arcs) :
    ∃ node edges report, run.idx.nodes k = some node ∧
      choose run node = .ok (some (edges, report)) ∧ edges.map GraphEdge.arc = arcs := by
  revert h
  fun_cases Run.selection run k <;> rintro ⟨⟩
  next node hn edges report hch => exact ⟨node, edges, report, hn, hch, rfl⟩

/-! ## The marking of a work list -/

variable {ι : Type} {work work' : List (W ι)} {w : W ι} {k : String} {p : W ι → Bool} {run : Run}
  {node : GraphNode} {edges picked : List GraphEdge} {context : Context} {report : Bool}
  {g : DerivedGraph} {made : List DecisionMade} {fuel : ℕ}

/-- The token an entry stands for. -/
def W.tok (w : W ι) : Tok String String := ⟨w.nodeKey, w.inbound, w.isActive⟩

def live (work : List (W ι)) : Marking String String := ↑((work.filter W.isLive).map W.tok)

theorem live_append (as bs : List (W ι)) : live (as ++ bs) = live as + live bs := by
  simp [live]

theorem live_cons (w : W ι) (work : List (W ι)) :
    live (w :: work) = (if w.isLive then {w.tok} else 0) + live work := by
  rw [← List.singleton_append, live_append]
  by_cases h : w.isLive <;> simp [live, h]

theorem mem_live {t : Tok String String} :
    t ∈ live work ↔ ∃ w ∈ work, w.isLive = true ∧ w.tok = t := by
  simp [live, and_assoc]

@[simp] theorem W.tok_node (w : W ι) : w.tok.node = w.nodeKey := rfl
@[simp] theorem W.tok_via (w : W ι) : w.tok.via = w.inbound := rfl
@[simp] theorem W.tok_active (w : W ι) : w.tok.active = w.isActive := rfl

theorem W.isLive_of_isActive (h : w.isActive = true) : w.isLive = true := by
  simp only [isActive, decide_eq_true_eq] at h
  simp [isLive, h]

theorem W.state_eq_waiting (hlive : w.isLive = true) (hactive : w.isActive = false) :
    w.state = .waiting := by
  cases hs : w.state with
  | waiting => rfl
  | active | consumed => simp [isLive, isActive, hs] at hlive hactive

theorem waitingAt_iff : waitingAt k w = true ↔ w.nodeKey = k ∧ w.state = .waiting := by
  simp [waitingAt]

theorem isLive_of_waitingAt (h : waitingAt k w = true) : w.isLive = true := by
  simp [W.isLive, (waitingAt_iff.mp h).2]

/-- The entry that `setFirst` changes, and its surroundings. -/
theorem setFirst_of_find? (h : work.find? p = some w) :
    ∃ before after, work = before ++ w :: after ∧ p w = true ∧
      ∀ s, setFirst p s work = before ++ { w with state := s } :: after := by
  obtain ⟨hw, before, after, rfl, hbefore⟩ := List.find?_eq_some_iff_append.mp h
  refine ⟨before, after, rfl, hw, fun s => ?_⟩
  clear h
  induction before with
  | nil => simp [setFirst, hw]
  | cons b before ih =>
    have hb : p b = false := by simpa using hbefore b (by simp)
    have hrest := ih fun a ha => hbefore a (by simp [ha])
    simp [setFirst, hb, hrest]

theorem live_insert (h : w.isLive = true) (before after : List (W ι)) :
    live (before ++ w :: after) = w.tok ::ₘ (live before + live after) := by
  rw [live_append, live_cons, if_pos h, singleton_add, add_cons]

theorem live_setFirst_consumed (hp : ∀ w, p w = true → w.isLive = true)
    (h : work.find? p = some w) : live (setFirst p .consumed work) = (live work).erase w.tok := by
  obtain ⟨before, after, rfl, hw, hset⟩ := setFirst_of_find? h
  rw [hset, live_insert (hp w hw), erase_cons_head, live_append, live_cons]
  simp [W.isLive]

theorem live_setFirst_waiting (h : work.find? W.isActive = some w) :
    live (setFirst W.isActive .waiting work) = (live work).erase w.tok + {w.tok.parked} := by
  obtain ⟨before, after, rfl, hw, hset⟩ := setFirst_of_find? h
  have hlive : W.isLive { w with state := .waiting } = true := rfl
  have htok : W.tok { w with state := .waiting } = w.tok.parked := rfl
  rw [hset, live_insert (W.isLive_of_isActive hw), live_insert hlive, htok,
    erase_cons_head, ← singleton_add, add_comm]

theorem live_spawned (edges : List GraphEdge) :
    live (edges.map spawnedAt : List (W ι)) = sends (edges.map GraphEdge.arc) := by
  rw [live, List.filter_eq_self.mpr, sends, List.map_map, List.map_map]
  · rfl
  · intro w hw
    obtain ⟨e, -, rfl⟩ := List.mem_map.mp hw
    rfl

theorem live_spawnOn (work : List (W ι)) (edges : List GraphEdge) :
    live (spawnOn work edges) = live work + sends (edges.map GraphEdge.arc) := by
  rw [spawnOn, live_append, live_spawned]

/-- Consume an entry if it is at the join. -/
def consumeAt (k : String) (w : W ι) : W ι :=
  if w.nodeKey = k && w.isLive then { w with state := .consumed } else w

theorem fireJoin_eq (run : Run) (work : List (W ι)) (k : String) :
    fireJoin run work k = work.map (consumeAt k) ++ (run.idx.out k).map spawnedAt := rfl

theorem live_map_consumeAt (work : List (W ι)) (k : String) :
    live (work.map (consumeAt k)) = (live work).filter fun t => t.node ≠ k := by
  induction work with
  | nil => rfl
  | cons w work ih =>
    rw [List.map_cons, live_cons, live_cons, ih, filter_add]
    congr 1
    by_cases hl : w.isLive = true
    · by_cases hk : w.nodeKey = k
      · have hdead : (consumeAt k w).isLive = false := by
          simp only [consumeAt, hk, hl, decide_true, Bool.and_self, if_true]
          rfl
        simp [hdead, hl, hk, filter_singleton]
      · have hsame : consumeAt k w = w := by simp [consumeAt, hk]
        rw [hsame, if_pos hl, filter_singleton, if_pos (by simpa using hk)]
    · simp [consumeAt, hl]

/-- The tokens present at a join, by the edge they came by. -/
theorem viaAt_live (work : List (W ι)) (k : String) :
    viaAt (live work) k = ↑((present work k).map (·.inbound)) := by
  induction work with
  | nil => rfl
  | cons w work ih =>
    have hcons : viaAt (live (w :: work)) k
        = (if w.nodeKey = k && w.isLive then {w.inbound} else 0) + viaAt (live work) k := by
      rw [live_cons, viaAt, filter_add, map_add]
      congr 1
      by_cases hl : w.isLive = true <;> by_cases hk : w.nodeKey = k <;>
        simp [hl, hk, filter_singleton]
    rw [hcons, ih, present, present, List.filter_cons]
    split_ifs with h <;> simp

/-! ## One iteration -/

/-- A node and the work lists before and after the engine processed a token there. -/
structure Iteration (ι : Type) where
  nodeKey : String
  before : List (W ι)
  after : List (W ι)

/-- The entries that were live and are consumed, by the edge they came by. -/
def takenBetween : List (W ι) → List (W ι) → List (Option String)
  | b :: before, a :: after =>
    if b.isLive && !a.isLive then b.inbound :: takenBetween before after
    else takenBetween before after
  | _, _ => []

namespace Iteration

variable (i : Iteration ι)

/-- The tokens the iteration consumed. -/
def taken : List (Option String) := takenBetween i.before i.after

/-- The arcs over which the iteration sent a token. -/
def sent : List (String × String) :=
  (i.after.drop i.before.length).filterMap fun w => w.inbound.map fun e => (w.nodeKey, e)

/-- The iteration as a label of the token game. -/
def passage : Passage String String := ⟨i.nodeKey, ↑i.taken, i.sent⟩

end Iteration

theorem takenBetween_self (work more : List (W ι)) : takenBetween work (work ++ more) = [] := by
  induction work with
  | nil => cases more <;> rfl
  | cons w work ih => cases h : w.isLive <;> simp [takenBetween, ih, h]

theorem takenBetween_append (common before after : List (W ι)) :
    takenBetween (common ++ before) (common ++ after) = takenBetween before after := by
  induction common with
  | nil => rfl
  | cons w common ih => cases h : w.isLive <;> simp [takenBetween, ih, h]

theorem takenBetween_map_consumeAt (work more : List (W ι)) (k : String) :
    takenBetween work (work.map (consumeAt k) ++ more) = (present work k).map (·.inbound) := by
  induction work with
  | nil => cases more <;> rfl
  | cons w work ih =>
    rw [List.map_cons, List.cons_append, takenBetween, ih, present, present, List.filter_cons]
    cases hl : w.isLive with
    | false => simp
    | true =>
      by_cases hk : w.nodeKey = k
      · have hdead : (consumeAt k w).isLive = false := by
          simp only [consumeAt, hk, hl, decide_true, Bool.and_self, if_true]
          rfl
        simp [hdead, hk]
      · have hsame : consumeAt k w = w := by simp [consumeAt, hk]
        simp [hsame, hl, hk]

/-- What was sent are the entries behind the old end. -/
theorem sent_spawned (k : String) (before rest : List (W ι)) (edges : List GraphEdge)
    (hlen : rest.length = before.length) :
    (Iteration.mk k before (rest ++ edges.map spawnedAt)).sent = edges.map GraphEdge.arc := by
  simp only [Iteration.sent, ← hlen, List.drop_left]
  induction edges with
  | nil => rfl
  | cons e edges ih => simpa [spawnedAt, GraphEdge.arc] using ih

theorem length_setFirst (s : TokenState) : (setFirst p s work).length = work.length := by
  induction work with
  | nil => rfl
  | cons v work ih =>
    rw [setFirst]
    split_ifs <;> simp [ih]

theorem passage_park (h : work.find? W.isActive = some w) :
    (Iteration.mk w.nodeKey work (setFirst W.isActive .waiting work)).passage
      = ⟨w.nodeKey, 0, []⟩ := by
  have hsent : (Iteration.mk w.nodeKey work (setFirst W.isActive .waiting work)).sent = [] := by
    simp only [Iteration.sent]
    rw [List.drop_eq_nil_of_le (by rw [length_setFirst])]
    rfl
  have htaken : (Iteration.mk w.nodeKey work (setFirst W.isActive .waiting work)).taken = [] := by
    obtain ⟨before, after, rfl, hw, hset⟩ := setFirst_of_find? h
    simp only [Iteration.taken, hset, takenBetween_append]
    have hself := takenBetween_self after []
    rw [List.append_nil] at hself
    simp [takenBetween, hself, W.isLive]
  simp [Iteration.passage, hsent, htaken]

theorem passage_pass (hp : ∀ w, p w = true → w.isLive = true) (h : work.find? p = some w)
    (edges : List GraphEdge) :
    (Iteration.mk w.nodeKey work (spawnOn (setFirst p .consumed work) edges)).passage
      = ⟨w.nodeKey, {w.inbound}, edges.map GraphEdge.arc⟩ := by
  have htaken :
      (Iteration.mk w.nodeKey work (spawnOn (setFirst p .consumed work) edges)).taken
        = [w.inbound] := by
    obtain ⟨before, after, rfl, hw, hset⟩ := setFirst_of_find? h
    simp only [Iteration.taken, hset, spawnOn, List.append_assoc, takenBetween_append,
      List.cons_append]
    have hlive := hp w hw
    simp only [W.isLive, ne_eq, decide_not, Bool.not_eq_true', decide_eq_false_iff_not] at hlive
    simp [takenBetween, takenBetween_self, hlive, W.isLive]
  rw [Iteration.passage, htaken, spawnOn, sent_spawned _ _ _ _ (length_setFirst _)]
  rfl

theorem passage_fire (run : Run) (work : List (W ι)) (k : String) :
    (Iteration.mk k work (fireJoin run work k)).passage
      = ⟨k, viaAt (live work) k, (run.idx.out k).map GraphEdge.arc⟩ := by
  rw [Iteration.passage, Iteration.taken, fireJoin_eq, sent_spawned _ _ _ _ (by simp),
    takenBetween_map_consumeAt, viaAt_live]

/-! ## Branch selection -/

theorem firstGuarded_mem {e : GraphEdge} (h : firstGuarded context edges = .ok (some e)) :
    e ∈ edges := by
  fun_induction firstGuarded context edges
  · cases h
  next ih => exact List.mem_cons_of_mem _ (ih h)
  next ih =>
    obtain ⟨b, -, h⟩ := bind_eq_ok.mp h
    cases b with
    | true =>
      cases h
      exact List.mem_cons_self
    | false => exact List.mem_cons_of_mem _ (ih h)

theorem openEdges_sublist (h : openEdges context edges = .ok picked) : picked.Sublist edges := by
  fun_induction openEdges context edges generalizing picked
  · cases h
    exact List.Sublist.refl _
  next f edges hc ih =>
    obtain ⟨rest, hrest, ⟨⟩⟩ := bind_eq_ok.mp h
    exact (ih hrest).cons_cons f
  next f edges c hc ih =>
    obtain ⟨b, -, h⟩ := bind_eq_ok.mp h
    obtain ⟨rest, hrest, ⟨⟩⟩ := bind_eq_ok.mp h
    cases b with
    | true => exact (ih hrest).cons_cons f
    | false => exact (ih hrest).cons f

/-- What the conditions select is a nonempty selection of the outgoing edges. -/
theorem autoBranches_spec {exclusive : Bool}
    (h : autoBranches context edges exclusive = .ok (some picked)) :
    picked.Sublist edges ∧ picked ≠ [] ∧ (exclusive = true → picked.length = 1) := by
  unfold autoBranches at h
  cases exclusive with
  | true =>
    obtain ⟨found, hf, h⟩ := bind_eq_ok.mp h
    cases found with
    | some e =>
      cases h
      exact ⟨List.singleton_sublist.mpr (firstGuarded_mem hf), by simp, by simp⟩
    | none =>
      cases hd : edges.filter (·.condition.isNone) with
      | nil => simp [hd] at h
      | cons e rest =>
        have hmem : e ∈ edges.filter (·.condition.isNone) := by simp [hd]
        obtain rfl : [e] = picked := by simpa [hd] using h
        exact ⟨List.singleton_sublist.mpr (List.mem_filter.mp hmem).1, by simp, by simp⟩
  | false =>
    obtain ⟨found, ho, h⟩ := bind_eq_ok.mp h
    simp only [Except.ok.injEq] at h
    split_ifs at h with hne
    cases h
    exact ⟨openEdges_sublist ho, hne, by simp⟩

/-- What a split takes is a nonempty selection of its outgoing edges, for an XOR split
a single one. -/
theorem choose_spec (h : choose run node = .ok (some (edges, report))) :
    edges.Sublist (run.idx.out node.key) ∧ edges ≠ [] ∧
      (node.connectorType = some .xor → edges.length = 1) := by
  unfold choose at h
  cases hd : run.decisions node.key with
  | some wanted =>
    simp only [hd] at h
    split_ifs at h with hnil hone
    cases h
    refine ⟨List.filter_sublist, hnil, fun hx => ?_⟩
    simpa [hx] using hone
  | none =>
    simp only [hd] at h
    obtain ⟨picked, ha, h⟩ := bind_eq_ok.mp h
    cases picked with
    | none => cases h
    | some auto =>
      cases h
      obtain ⟨hsub, hne, hone⟩ := autoBranches_spec ha
      exact ⟨hsub, hne, fun hx => hone (by simpa using hx)⟩

/-! ## Every iteration is a move -/

/-- What the engine does with the first active token at a node, by the role of the node. -/
inductive Treated (n : GraphNode) : Option Role →
    (Run → List (W ι) → W ι → Except (EngineError ι) (List (W ι) × List DecisionMade)) → Prop
  | pass : Treated n (some .pass) fun run work _ =>
      .ok (spawnOn (setFirst W.isActive .consumed work) (run.idx.out n.key), [])
  | task (htype : n.type = .function) :
      Treated n (some .task) fun _ work _ => .ok (setFirst W.isActive .waiting work, [])
  | choice : Treated n (some .choice) fun run work _ => choiceSplit run work n
  | andJoin (hdir : n.connectorDirection = some .join) : Treated n (some .andJoin) fun run work _ =>
      .ok (maybeFireAndJoin run (setFirst W.isActive .waiting work) n.key, [])
  | xorJoin (hdir : n.connectorDirection = some .join) : Treated n (some .xorJoin) fun run work _ =>
      .ok (fireChoiceJoin run (setFirst W.isActive .waiting work) n.key, [])
  | orJoin (htype : n.type = .connector) (hdir : n.connectorDirection = some .join)
      (hand : n.connectorType ≠ some .and) (hxor : n.connectorType ≠ some .xor) :
      Treated n (some .orJoin) fun run work _ =>
        .ok (maybeFireOrJoin run (setFirst W.isActive .waiting work) n.key, [])
  | raises (err : W ι → EngineError ι)
      (hshape : nodeShape n.type n.functionKind n.connectorType n.connectorDirection = false) :
      Treated n none fun _ _ w => .error (err w)

theorem process_treated (n : GraphNode) : ∃ role f, n.role = role ∧ Treated n role f ∧
    ∀ (run : Run) (work : List (W ι)) (w : W ι), run.idx.nodes w.nodeKey = some n →
      process run work w = f run work w := by
  fun_cases GraphNode.role n
  next ht => exact ⟨_, _, rfl, .pass, fun run work w hn => by simp only [process, hn, ht]⟩
  next ht => exact ⟨_, _, rfl, .task ht, fun run work w hn => by simp only [process, hn, ht]⟩
  next ht hd hc =>
    exact ⟨_, _, rfl, .pass, fun run work w hn => by
      simp only [process, connector, hn, ht, hd, hc, if_true]⟩
  next ht hd hc =>
    exact ⟨_, _, rfl, .choice, fun run work w hn => by
      simp only [process, connector, hn, ht, hd, hc, if_false]⟩
  next ht hd hc =>
    exact ⟨_, _, rfl, .andJoin hd, fun run work w hn => by
      simp only [process, connector, hn, ht, hd, hc]⟩
  next ht hd hc =>
    exact ⟨_, _, rfl, .xorJoin hd, fun run work w hn => by
      simp only [process, connector, hn, ht, hd, hc]⟩
  next ht hd hand hxor =>
    refine ⟨_, _, rfl, .orJoin ht hd hand hxor, fun run work w hn => ?_⟩
    simp only [process, connector, hn, ht, hd]
  next ht hd =>
    exact ⟨_, _, rfl, .raises (fun _ => .noDirection n.key) (by simp [nodeShape, ht, hd]),
      fun run work w hn => by simp only [process, connector, hn, ht, hd]⟩
  next name ht =>
    exact ⟨_, _, rfl, .raises (fun w => .unknownNodeType name w.nodeKey) (by simp [nodeShape, ht]),
      fun run work w hn => by simp only [process, hn, ht]⟩

theorem consumeAt_setState (hlive : w.isLive = true) (k : String) :
    w.nodeKey = k → consumeAt k { w with state := .waiting } = consumeAt k w := by
  rintro rfl
  have hlive' : W.isLive { w with state := .waiting } = true := rfl
  simp [consumeAt, hlive, hlive']

/-- The entry that was parked at a join is consumed with the others. -/
theorem fireJoin_setFirst (h : work.find? W.isActive = some w) :
    fireJoin run (setFirst W.isActive .waiting work) w.nodeKey = fireJoin run work w.nodeKey := by
  obtain ⟨before, after, rfl, hw, hset⟩ := setFirst_of_find? h
  simp [fireJoin_eq, hset, consumeAt_setState (W.isLive_of_isActive hw) _ rfl]

/-- Parking a token changes nothing that the joins look at. -/
theorem map_setFirst_waiting {α : Type} (f : W ι → α)
    (hf : ∀ w : W ι, f { w with state := .waiting } = f w) (q : W ι → Bool)
    (hq : ∀ w : W ι, w.isLive = true → q { w with state := .waiting } = q w)
    (h : work.find? W.isActive = some w) :
    ((setFirst W.isActive .waiting work).filter q).map f = (work.filter q).map f := by
  obtain ⟨before, after, rfl, hw, hset⟩ := setFirst_of_find? h
  have hqw := hq w (W.isLive_of_isActive hw)
  rw [hset]
  cases hc : q w <;> simp [List.filter_append, hqw, hc, hf]

section

variable (h : work.find? W.isActive = some w)
include h

theorem present_setFirst (k : String) :
    (present (setFirst W.isActive .waiting work) k).map (·.inbound)
      = (present work k).map (·.inbound) := by
  refine map_setFirst_waiting _ (fun _ => rfl) _ (fun w hw => ?_) h
  rw [hw]
  rfl

theorem stillComing_setFirst (k : String) :
    stillComing run (setFirst W.isActive .waiting work) k = stillComing run work k := by
  obtain ⟨before, after, rfl, hw, hset⟩ := setFirst_of_find? h
  have hlive := W.isLive_of_isActive hw
  have hlive' : W.isLive { w with state := .waiting } = true := rfl
  simp [stillComing, hset, hlive, hlive']

theorem present_ne_nil :
    (present (setFirst W.isActive .waiting work) w.nodeKey).isEmpty = false := by
  have hmem : w ∈ present work w.nodeKey := by
    have hw := List.find?_some h
    simp [present, List.mem_of_find?_eq_some h, W.isLive_of_isActive hw]
  have hne : (present work w.nodeKey).map (·.inbound) ≠ [] := by
    intro h0
    rw [List.map_eq_nil_iff.mp h0] at hmem
    cases hmem
  rw [← present_setFirst h] at hne
  simpa using hne

end

section

variable (hidx : run.idx = g.index)
include hidx

/-- The AND join's test is completeness of the marking. -/
theorem complete_iff (work : List (W ι)) (k : String) :
    Complete g.net (live work) k ↔
      ¬ ((run.idx.inc k).map (fun e => some e.key) = [] ∨
        ¬ ∀ x ∈ (run.idx.inc k).map (fun e => some e.key),
          x ∈ (present work k).map (·.inbound)) := by
  have hinc : g.net.inc k = (run.idx.inc k).map (·.key) := by rw [hidx]; rfl
  simp [Complete, hinc, viaAt_live]

theorem reaches_iff (hc : g.Closed) (a b : String) :
    g.net.Reaches a b ↔ b ∈ run.idx.reachable a := by
  rw [DerivedGraph.net_reaches, ← DerivedGraph.mem_descendants hc, hidx]
  rfl

/-- The OR join's test is that a token is coming. -/
theorem coming_iff (hc : g.Closed) (work : List (W ι)) (k : String) :
    Coming g.net (live work) k ↔ stillComing run work k = true := by
  simp only [Coming, stillComing, List.any_eq_true, reaches_iff hidx hc]
  constructor
  · rintro ⟨t, ht, hne, hr⟩
    obtain ⟨w, hw, hlive, rfl⟩ := mem_live.mp ht
    refine ⟨w, hw, ?_⟩
    simp only [W.tok_node] at hne hr
    simp [hlive, hne, hr]
  · rintro ⟨w, hw, h⟩
    simp only [ne_eq, decide_not, Bool.and_eq_true, Bool.not_eq_true', decide_eq_false_iff_not,
      decide_eq_true_eq] at h
    exact ⟨w.tok, mem_live.mpr ⟨w, hw, h.1.1, rfl⟩, h.1.2, h.2⟩

/-- What an iteration can do to the work list, and when. -/
inductive Effect (g : DerivedGraph) (run : Run) (work : List (W ι)) (w : W ι) :
    List (W ι) → Prop where
  | park (why : Parks g.net run.selection (live work) w.nodeKey) :
      Effect g run work w (setFirst W.isActive .waiting work)
  | pass {edges : List GraphEdge} (hsub : edges ⊆ run.idx.out w.nodeKey)
      (why : Passes g.net run.selection w.nodeKey (edges.map GraphEdge.arc)) :
      Effect g run work w (spawnOn (setFirst W.isActive .consumed work) edges)
  | fire (why : Fires g.net (live work) w.nodeKey) :
      Effect g run work w (fireJoin run work w.nodeKey)

theorem role_of_node
    (hnode : run.idx.nodes k = some node) : node.key = k ∧ g.net.role k = node.role := by
  rw [hidx] at hnode
  have hnode' : g.node? k = some node := hnode
  refine ⟨DerivedGraph.node?_key hnode', ?_⟩
  simp [DerivedGraph.net, hnode']

theorem andJoin_effect (hw : work.find? W.isActive = some w)
    (hr : g.net.role w.nodeKey = some .andJoin)
    (h : maybeFireAndJoin run (setFirst W.isActive .waiting work) w.nodeKey = work') :
    Effect g run work w work' := by
  have hcomp := complete_iff hidx work w.nodeKey
  unfold maybeFireAndJoin at h
  simp only [present_setFirst hw, Bool.or_eq_true, decide_eq_true_eq, Bool.not_eq_true',
    List.all_eq_false] at h
  by_cases hfire : Complete g.net (live work) w.nodeKey
  · rw [if_neg (by simpa using hcomp.mp hfire), fireJoin_setFirst hw] at h
    subst h
    exact .fire (.inl ⟨hr, hfire⟩)
  · have hno := not_not.mp (mt hcomp.mpr hfire)
    rw [if_pos (by simpa using hno)] at h
    subst h
    exact .park (.inr (.inr (.inl ⟨hr, hfire⟩)))

theorem orJoin_effect (hc : g.Closed)
    (hw : work.find? W.isActive = some w) (hr : g.net.role w.nodeKey = some .orJoin)
    (h : maybeFireOrJoin run (setFirst W.isActive .waiting work) w.nodeKey = work') :
    Effect g run work w work' := by
  have hcoming := coming_iff hidx hc work w.nodeKey
  rw [maybeFireOrJoin, present_ne_nil hw, stillComing_setFirst hw, fireJoin_setFirst hw] at h
  cases hstill : stillComing run work w.nodeKey with
  | true =>
    simp only [hstill, if_true] at h
    subst h
    exact .park (.inr (.inr (.inr ⟨hr, hcoming.mpr hstill⟩)))
  | false =>
    simp only [hstill] at h
    subst h
    exact .fire (.inr (.inr ⟨hr, fun hco => by simp [hcoming.mp hco] at hstill⟩))

/-- **What an iteration does**: it parks the token, passes it on, or fires a join. -/
theorem process_effect (hc : g.Closed)
    (hw : work.find? W.isActive = some w) (h : process run work w = .ok (work', made)) :
    Effect g run work w work' := by
  cases hnode : run.idx.nodes w.nodeKey with
  | none => simp only [process, hnode, reduceCtorEq] at h
  | some node =>
    obtain ⟨hkey, hrole⟩ := role_of_node hidx hnode
    have hout : (run.idx.out node.key).map GraphEdge.arc = g.net.out w.nodeKey := by
      rw [hidx, hkey]
      rfl
    obtain ⟨role, f, hr, hf, hprocess⟩ := process_treated (ι := ι) node
    rw [hprocess run work w hnode] at h
    rw [hr] at hrole
    cases hf with
    | pass =>
      cases h
      exact .pass (hkey ▸ List.Subset.refl _) (.inl ⟨hrole, hout⟩)
    | task =>
      cases h
      exact .park (.inl hrole)
    | choice =>
      change choiceSplit run work node = _ at h
      revert h
      fun_cases choiceSplit run work node <;> rintro ⟨⟩
      next hch =>
        refine .park (.inr (.inl ⟨hrole, ?_⟩))
        simp [Run.selection, hnode, hch]
      next hch =>
        refine .pass (hkey ▸ (choose_spec hch).1.subset) (.inr ⟨hrole, ?_⟩)
        simp [Run.selection, hnode, hch]
    | andJoin =>
      cases h
      exact andJoin_effect hidx hw hrole (by rw [hkey])
    | xorJoin =>
      cases h
      rw [hkey, fireChoiceJoin, present_ne_nil hw, fireJoin_setFirst hw]
      exact .fire (.inr (.inl hrole))
    | orJoin =>
      cases h
      exact orJoin_effect hidx hc hw hrole (by rw [hkey])
    | raises => cases h

/-- The label of an iteration that turned `work` into `work'` at `w`. -/
def passageOf (w : W ι) (work work' : List (W ι)) : Passage String String :=
  (Iteration.mk w.nodeKey work work').passage

/-- **Every iteration of the engine is a move of the token game.** -/
theorem Effect.move (hw : work.find? W.isActive = some w)
    (h : Effect g run work w work') :
    Move g.net run.selection (live work) (passageOf w work work') (live work') := by
  have hact := List.find?_some hw
  have hmem := mem_live.mpr ⟨w, List.mem_of_find?_eq_some hw, W.isLive_of_isActive hact, rfl⟩
  cases h with
  | park why =>
    rw [passageOf, passage_park hw, live_setFirst_waiting hw]
    exact .park hmem hact why
  | pass hsub why =>
    rw [passageOf, passage_pass (fun _ => W.isLive_of_isActive) hw, live_spawnOn,
      live_setFirst_consumed (fun _ => W.isLive_of_isActive) hw]
    exact .pass hmem hact why
  | fire why =>
    have hout : (run.idx.out w.nodeKey).map GraphEdge.arc = g.net.out w.nodeKey := by
      rw [hidx]
      rfl
    rw [passageOf, passage_fire, fireJoin_eq, live_append, live_spawned, live_map_consumeAt,
      hout]
    exact .fire hmem hact why

theorem process_move (hc : g.Closed)
    (hw : work.find? W.isActive = some w) (h : process run work w = .ok (work', made)) :
    Move g.net run.selection (live work) (passageOf w work work') (live work') :=
  (process_effect hidx hc hw h).move hidx hw

end

/-! ## The loop as a trace -/

def loopSteps (run : Run) : ℕ → List (W ι) → List (Iteration ι)
  | fuel, work =>
    match work.find? W.isActive with
    | none => []
    | some w =>
      match fuel with
      | 0 => []
      | fuel + 1 =>
        match process run work w with
        | .error _ => []
        | .ok (work', _) => ⟨w.nodeKey, work, work'⟩ :: loopSteps run fuel work'

theorem loop_none (hw : work.find? W.isActive = none) : loop run fuel work = .ok (work, []) := by
  cases fuel <;> simp [loop, hw]

theorem loopSteps_none (hw : work.find? W.isActive = none) : loopSteps run fuel work = [] := by
  cases fuel <;> simp [loopSteps, hw]

theorem loopSteps_succ {mid : List (W ι)} {made₁ : List DecisionMade}
    (hw : work.find? W.isActive = some w) (hp : process run work w = .ok (mid, made₁)) :
    loopSteps run (fuel + 1) work = ⟨w.nodeKey, work, mid⟩ :: loopSteps run fuel mid := by
  rw [loopSteps]
  simp only [hw, hp]

/-- **Induction along a loop that returns**: it ends when no entry is active, and
before that it processes the first active one. -/
theorem loop_induction {P : ℕ → List (W ι) → List DecisionMade → Prop}
    (done : ∀ fuel, work'.find? W.isActive = none → P fuel work' [])
    (step : ∀ fuel work w mid made later, work.find? W.isActive = some w →
      process run work w = .ok (mid, made) → P fuel mid later → P (fuel + 1) work (made ++ later))
    (h : loop run fuel work = .ok (work', made)) : P fuel work made := by
  fun_induction loop run fuel work generalizing made
  next fuel work hw =>
    cases h
    exact done fuel hw
  · cases h
  next work w hw fuel ih =>
    obtain ⟨⟨mid, made⟩, hp, h⟩ := bind_eq_ok.mp h
    obtain ⟨⟨_, later⟩, hl, ⟨⟩⟩ := bind_eq_ok.mp h
    exact step fuel work w mid made later hw hp (ih mid hl)

/-- What every iteration keeps, the loop keeps. -/
theorem loop_invariant {P : List (W ι) → Prop}
    (hstep : ∀ work w work' made, work.find? W.isActive = some w →
      process run work w = .ok (work', made) → P work → P work')
    (h : loop run fuel work = .ok (work', made)) (hP : P work) : P work' := by
  refine loop_induction (P := fun _ work _ => P work → P work') (fun _ _ h => h) ?_ h hP
  intro fuel work w mid made _ hw hp ih hP
  exact ih (hstep work w mid made hw hp hP)

theorem loop_quiet (h : loop run fuel work = .ok (work', made)) : ∀ w ∈ work', w.isActive = false :=
  loop_induction (P := fun _ _ _ => ∀ w ∈ work', w.isActive = false)
    (fun _ hw => by simpa using hw) (fun _ _ _ _ _ _ _ _ ih => ih) h

/-- **The iterations of the loop are a trace of moves.** -/
theorem loop_trace (hidx : run.idx = g.index) (hc : g.Closed)
    (h : loop run fuel work = .ok (work', made)) :
    Trace (Move g.net run.selection) (live work)
      ((loopSteps run fuel work).map Iteration.passage) (live work') := by
  refine loop_induction (P := fun fuel work _ => Trace (Move g.net run.selection) (live work)
    ((loopSteps run fuel work).map Iteration.passage) (live work')) (fun fuel hw => ?_) ?_ h
  · rw [loopSteps_none hw]
    exact .nil _
  · intro fuel work w mid made _ hw hp ih
    rw [loopSteps_succ hw hp, List.map_cons]
    exact .cons (process_move hidx hc hw hp) ih

end BbzPlatform.Workflow
