import BbzPlatform.Workflow.Choices
import BbzPlatform.Workflow.Publish
import BbzPlatform.Workflow.Runs

/-!
# When the engine settles

The loop stops with an error when it has taken more steps than a budget quadratic in
the size of the graph.  The number of tokens is bounded by the number of paths, which
can be exponential, so an acyclic graph can exceed the budget too.  What is enough is
a bound `F` on how often each node is passed: it covers the tokens that can become
active there, for an AND join those of one incoming edge, for an OR join one, and the
edges sent over fit the budget.
-/

namespace BbzPlatform.Workflow

open RuleDsl Function List
open TokenNet (Move Trace passes activeCount viasTo FiringBound)

variable {ι : Type}

/-- The edges over which a node sends a token when it is passed. -/
def sentEdges (run : Run) (n : GraphNode) : List GraphEdge :=
  if n.role = some .choice then
    match choose run n with
    | .ok (some (edges, _)) => edges
    | _ => []
  else run.idx.out n.key

/-- `F` bounds the passages of the node: it covers the tokens active there and those
that can be sent there. -/
def Covers (run : Run) (work : List (W ι)) (F : String → ℕ) (n : GraphNode) : Prop :=
  work.countP (fun w => w.nodeKey = n.key && w.isActive)
      + (run.graph.nodes.map fun m =>
          F m.key * (sentEdges run m).countP (·.toKey = n.key)).sum ≤ F n.key ∨
  (n.role = some .andJoin ∧ ∃ e ∈ run.idx.inc n.key,
    work.countP (fun w => w.nodeKey = n.key && w.isLive && w.inbound = some e.key)
      + (run.graph.nodes.map fun m =>
          F m.key * (sentEdges run m).countP (fun f => f.toKey = n.key && f.key = e.key)).sum
        ≤ F n.key) ∨
  (n.role = some .orJoin ∧ n.key ∉ run.idx.reachable n.key ∧ 1 ≤ F n.key)

instance (run : Run) (work : List (W ι)) (F : String → ℕ) (n : GraphNode) :
    Decidable (Covers run work F n) := by
  unfold Covers
  infer_instance

/-- Some bound on the passages keeps the steps of the loop within the budget. -/
def WithinBudget (run : Run) (work : List (W ι)) : Prop :=
  ∃ F : String → ℕ, (∀ n ∈ run.graph.nodes, n.role ≠ some .task → Covers run work F n) ∧
    work.countP W.isActive
      + (run.graph.nodes.map fun m => F m.key * (sentEdges run m).length).sum
      ≤ budget run.graph work

/-! ## The bound on the net -/

variable {g : DerivedGraph} {context : Context} {decisions : Mapping (List String)}
  {work : List (W ι)} {F weight : String → ℕ} {n : GraphNode} {run : Run} {fuel : ℕ} {w : W ι}
  {tokens : List (Token ι)} {err : EngineError ι} {c : Call ι} {events : List (Event ι)}

theorem DerivedGraph.WellFormed.closed (hwf : g.WellFormed) : g.Closed :=
  fun e he => ⟨hwf.from_mem e he, hwf.to_mem e he⟩

theorem mem_nodes_of_node? {k : String} (h : g.node? k = some n) : n ∈ g.nodes :=
  mem_reverse.mp (mem_of_find?_eq_some h)

theorem sentBy_eq (hwf : g.WellFormed) {m : GraphNode} (hm : m ∈ g.nodes) :
    g.net.sentBy (g.run context decisions).selection m.key
      = (sentEdges (g.run context decisions) m).map GraphEdge.arc := by
  have hnode := node?_of_mem hwf hm
  have hsel : (g.run context decisions).idx.nodes m.key = some m := hnode
  unfold TokenNet.Net.sentBy sentEdges
  rw [DerivedGraph.role_eq_of_node hnode]
  split_ifs with hr
  · simp only [Run.selection, hsel]
    cases hch : choose (g.run context decisions) m with
    | error err => rfl
    | ok picked =>
      cases picked with
      | none => rfl
      | some picked => rfl
  · rfl

theorem sum_keys (hwf : g.WellFormed) (f : String → ℕ) :
    ∑ k ∈ (g.nodes.map (·.key)).toFinset, f k = (g.nodes.map fun m => f m.key).sum := by
  rw [sum_toFinset f hwf.nodes_nodup, map_map]
  rfl

theorem card_viasTo_arcs (edges : List GraphEdge) (k : String) :
    (viasTo (edges.map GraphEdge.arc) k).card = edges.countP (·.toKey = k) := by
  rw [viasTo, Multiset.coe_card, length_map, ← countP_eq_length_filter, countP_map]
  exact countP_congr fun f _ => Iff.rfl

theorem count_viasTo_arcs (edges : List GraphEdge) (k e : String) :
    (viasTo (edges.map GraphEdge.arc) k).count (some e)
      = edges.countP (fun f => f.toKey = k && f.key = e) := by
  rw [Multiset.count, viasTo, Multiset.coe_countP, countP_map, countP_filter,
    countP_map]
  refine countP_congr fun f _ => ?_
  rw [comp_apply, comp_apply, Bool.and_eq_true, Bool.and_eq_true, and_comm]
  exact and_congr Iff.rfl (by simp [GraphEdge.arc, eq_comm])

theorem activeCount_live (q : String → Prop) [DecidablePred q] (work : List (W ι)) :
    activeCount q (live work) = work.countP fun w => q w.nodeKey && w.isActive := by
  rw [activeCount, live, Multiset.coe_countP, countP_map, countP_filter]
  refine countP_congr fun w _ => ?_
  rw [comp_apply, Bool.and_eq_true, Bool.and_eq_true, decide_eq_true_iff,
    decide_eq_true_iff]
  exact ⟨fun h => h.1, fun h => ⟨h, W.isLive_of_isActive h.2⟩⟩

theorem count_viaAt_live (work : List (W ι)) (k e : String) :
    (TokenNet.viaAt (live work) k).count (some e)
      = work.countP fun w => w.nodeKey = k && w.isLive && w.inbound = some e := by
  rw [viaAt_live, Multiset.count, Multiset.coe_countP, countP_map, present,
    countP_filter]
  refine countP_congr fun w _ => ?_
  simp only [comp_apply, Bool.and_eq_true, decide_eq_true_iff]
  exact and_comm.trans (and_congr_right fun _ => eq_comm)

theorem firingBound_of_covers (hwf : g.WellFormed)
    (h : ∀ n ∈ g.nodes, n.role ≠ some .task → Covers (g.run context decisions) work F n) :
    FiringBound g.net (g.run context decisions).selection (g.nodes.map (·.key)).toFinset
      (live work) F := by
  intro k hknown htask
  cases hn : g.node? k with
  | none => simp [DerivedGraph.net, hn] at hknown
  | some n =>
    obtain rfl := DerivedGraph.node?_key hn
    have hmem := mem_nodes_of_node? hn
    have hrole := DerivedGraph.role_eq_of_node hn
    rw [hrole] at htask ⊢
    have hsum : ∀ f : List (String × String) → ℕ,
        ∑ m ∈ (g.nodes.map (·.key)).toFinset,
          F m * f (g.net.sentBy (g.run context decisions).selection m)
        = (g.nodes.map fun m => F m.key *
            f ((sentEdges (g.run context decisions) m).map GraphEdge.arc)).sum := by
      intro f
      rw [sum_keys hwf]
      refine congrArg sum (map_congr_left fun m hm => ?_)
      rw [sentBy_eq hwf hm]
    rcases h n hmem htask with hle | ⟨hr, e, he, hle⟩ | ⟨hr, hloop, hle⟩
    · left
      rw [activeCount_live, hsum fun arcs => (viasTo arcs n.key).card]
      simp only [card_viasTo_arcs]
      exact hle
    · refine .inr (.inl ⟨hr, e.key, ?_, ?_⟩)
      · exact mem_map_of_mem he
      · rw [count_viaAt_live, hsum fun arcs => (viasTo arcs n.key).count (some e.key)]
        simp only [count_viasTo_arcs]
        exact hle
    · refine .inr (.inr ⟨hr, ?_, hle⟩)
      rwa [DerivedGraph.net_reaches, ← DerivedGraph.mem_descendants hwf.closed]

/-! ## The loop within its budget -/

/-- The tokens are live and stand at nodes of the graph. -/
def Placed (g : DerivedGraph) (tokens : List (Token ι)) : Prop :=
  ∀ t ∈ tokens, t.state ≠ .consumed ∧ t.nodeKey ∈ g.nodes.map (·.key)

theorem Encodes.known (hwf : g.WellFormed) (htok : Placed g tokens) (henc : Encodes g tokens work)
    (hw : w ∈ work) : w.nodeKey ∈ g.nodes.map (·.key) := by
  obtain ⟨old, new, rfl, hold, hnew⟩ := henc
  rcases mem_append.mp hw with hw | hw
  · obtain ⟨t, ht, hload⟩ := Rows.exists_of_forall₂ hold hw
    rw [hload.nodeKey]
    exact (htok t ht).2
  · obtain ⟨e, he, hkey, -⟩ := (hnew w hw).edge
    rw [hkey]
    exact hwf.to_mem e he

/-- On a well-formed graph an iteration fails only where a choice split cannot choose. -/
theorem process_error (hwf : g.WellFormed) (hidx : run.idx = g.index)
    (hknown : w.nodeKey ∈ g.nodes.map (·.key)) (h : process run work w = .error err) :
    ∃ n ∈ g.nodes, n.role = some .choice ∧ ∃ b, choose run n = .error b ∧ err = .branch b := by
  obtain ⟨n, hn, hkey⟩ := mem_map.mp hknown
  have hnode : run.idx.nodes w.nodeKey = some n := by
    rw [hidx, ← hkey]
    exact node?_of_mem hwf hn
  obtain ⟨role, f, hr, hf, hprocess⟩ := process_treated (ι := ι) n
  rw [hprocess run work w hnode] at h
  cases hf with
  | choice =>
    change choiceSplit run work n = _ at h
    revert h
    fun_cases choiceSplit run work n <;> rintro ⟨⟩
    next b hch => exact ⟨n, hn, hr, b, hch, rfl⟩
  | raises _ hshape => cases hshape.symm.trans (hwf.shape n hn)
  | _ => cases h

/-- When the loop fails, an iteration failed or it has used up its budget: it has made a
trace of that length and left an active token. -/
theorem loop_error (hidx : run.idx = g.index) (hc : g.Closed) (henc : Encodes g tokens work)
    (h : loop run fuel work = .error err) :
    (err = .didNotSettle ∧ ∃ ps M, Trace (Move g.net run.selection) (live work) ps M ∧
      ps.length = fuel ∧ 1 ≤ activeCount (fun _ => True) M) ∨
    ∃ mid w, Encodes g tokens mid ∧ w ∈ mid ∧ process run mid w = .error err := by
  fun_induction loop run fuel work
  · cases h
  next work w hw =>
    cases h
    refine .inl ⟨rfl, [], live work, .nil _, rfl, ?_⟩
    rw [activeCount_live]
    refine countP_pos_iff.mpr ⟨w, mem_of_find?_eq_some hw, ?_⟩
    simpa using find?_some hw
  next work w hw fuel ih =>
    cases hp : process run work w with
    | error e =>
      rw [hp] at h
      cases h
      exact .inr ⟨work, w, henc, mem_of_find?_eq_some hw, hp⟩
    | ok r =>
      obtain ⟨mid, made⟩ := r
      have heff := process_effect hidx hc hw hp
      simp only [hp, bind, Except.bind] at h
      cases hl : loop run fuel mid with
      | ok r₂ => simp only [hl] at h; cases h
      | error e =>
        simp only [hl] at h
        cases h
        rcases ih mid (heff.encodes hidx henc) hl with ⟨he, ps, M, htrace, hlen, hact⟩ | hbad
        · exact .inl ⟨he, _, M, .cons (heff.move hidx hw) htrace, by simp [hlen], hact⟩
        · exact .inr hbad

/-- **Within its budget the loop fails only where a choice split cannot choose.** -/
theorem runLoop_error (hwf : g.WellFormed) (htok : Placed g tokens) (henc : Encodes g tokens work)
    (hfit : WithinBudget (g.run context decisions) work)
    (h : runLoop (g.run context decisions) work = .error err) :
    ∃ n ∈ g.nodes, n.role = some .choice ∧
      ∃ b, choose (g.run context decisions) n = .error b ∧ err = .branch b := by
  rcases loop_error rfl hwf.closed henc h with
    ⟨-, ps, M, htrace, hlen, hact⟩ | ⟨mid, w, hmid, hw, hp⟩
  · exfalso
    obtain ⟨F, hcov, hfit⟩ := hfit
    have hknown : ∀ k, g.net.role k ≠ none → k ∈ (g.nodes.map (·.key)).toFinset := by
      intro k hk
      cases hn : g.node? k with
      | none => simp [DerivedGraph.net, hn] at hk
      | some n =>
        rw [← DerivedGraph.node?_key hn]
        simpa using ⟨n, mem_nodes_of_node? hn, rfl⟩
    have hle := htrace.length_le (fun _ _ => selection_subset) hknown
      (firingBound_of_covers hwf hcov)
    have hsum : ∑ m ∈ (g.nodes.map (·.key)).toFinset,
          F m * (g.net.sentBy (g.run context decisions).selection m).length
        = (g.nodes.map fun m => F m.key * (sentEdges (g.run context decisions) m).length).sum := by
      rw [sum_keys hwf]
      refine congrArg sum (map_congr_left fun m hm => ?_)
      rw [sentBy_eq hwf hm, length_map]
    rw [hsum, activeCount_live] at hle
    simp only [decide_true, Bool.true_and] at hle
    have hfit : work.countP (fun w => w.isActive)
        + (g.nodes.map fun m => F m.key * (sentEdges (g.run context decisions) m).length).sum
        ≤ budget g work := hfit
    have hfuel : ps.length = budget g work := hlen
    omega
  · exact process_error hwf rfl (hmid.known hwf htok hw) hp

/-! ## Calls within their budget -/

/-- The work list with which the loop of the call starts fits its budget. -/
def Call.Fits (g : DerivedGraph) (c : Call ι) : Prop :=
  ∀ run work, c.enter g = .ok (run, work) → WithinBudget run work

theorem Call.enter_cases (hc : g.Closed) (hlive : ∀ t ∈ c.tokens, t.state ≠ .consumed) :
    (∃ work, c.enter g = .ok (g.run c.context c.decisions, work)) ∨
    ∃ k, c.target = some k ∧ c.enter g = .error (.stepNotWaiting k) ∧
      ∀ t ∈ c.tokens, t.nodeKey = k → t.state ≠ .waiting := by
  have hrun : (mkRun g c.context c.decisions : Except (EngineError ι) Run)
      = .ok (g.run c.context c.decisions) := mkRun_eq_ok.mpr ⟨hc, rfl⟩
  unfold Call.enter
  rw [hrun, mapM_mkExisting hlive]
  simp only [bind, Except.bind]
  cases htarget : c.target with
  | none => exact .inl ⟨_, rfl⟩
  | some k =>
    simp only [resumeWork]
    cases hfind : (c.tokens.map Token.entry).find? (waitingAt k) with
    | some w => exact .inl ⟨_, rfl⟩
    | none =>
      refine .inr ⟨k, rfl, rfl, fun t ht hk hw => ?_⟩
      have hno := find?_eq_none.mp hfind t.entry (mem_map_of_mem ht)
      simp [waitingAt, Token.entry, hk, hw] at hno

/-- **A call within its budget returns**, unless no token waits where it resumes or a
choice split cannot choose. -/
theorem Call.outcome_cases (hwf : g.WellFormed) (htok : Placed g c.tokens) (hfit : c.Fits g) :
    (∃ r, c.outcome g = .ok r) ∨
    (∃ k, c.target = some k ∧ c.outcome g = .error (.stepNotWaiting k) ∧
      ∀ t ∈ c.tokens, t.nodeKey = k → t.state ≠ .waiting) ∨
    ∃ n ∈ g.nodes, n.role = some .choice ∧
      ∃ b, choose (g.run c.context c.decisions) n = .error b ∧
        c.outcome g = .error (.branch b) := by
  rcases Call.enter_cases hwf.closed fun t ht => (htok t ht).1 with
    ⟨work, henter⟩ | ⟨k, hk, henter, hno⟩
  · cases hloop : runLoop (g.run c.context c.decisions) work with
    | ok finished =>
      obtain ⟨work', made⟩ := finished
      left
      simp only [Call.outcome, Call.finish, henter, hloop, bind, Except.bind]
      exact ⟨_, result_of_quiet (loop_quiet hloop)⟩
    | error err =>
      obtain ⟨n, hn, hrole, b, hb, rfl⟩ := runLoop_error hwf htok
        (Call.enter_encodes henter) (hfit _ _ henter) hloop
      refine .inr (.inr ⟨n, hn, hrole, b, hb, ?_⟩)
      simp only [Call.outcome, Call.finish, henter, hloop, bind, Except.bind]
  · refine .inr (.inl ⟨k, hk, ?_, hno⟩)
    simp only [Call.outcome, Call.finish, henter, bind, Except.bind]

/-- **A call within its budget returns** if its decisions are accepted and no condition breaks the
parser, unless no token waits where it resumes. -/
theorem Call.returns_cases (hwf : g.WellFormed) (hguards : ParsableGuards g)
    (hdec : DecisionsAccepted g c.decisions) (htok : Placed g c.tokens) (hfit : c.Fits g) :
    (∃ r, c.outcome g = .ok r) ∨
    ∃ k, c.target = some k ∧ c.outcome g = .error (.stepNotWaiting k) ∧
      ∀ t ∈ c.tokens, t.nodeKey = k → t.state ≠ .waiting := by
  rcases Call.outcome_cases hwf htok hfit with hok | hno | ⟨n, hn, -, b, hb, -⟩
  · exact .inl hok
  · exact .inr hno
  · obtain ⟨p, hp⟩ := choose_ok hwf hguards c.context hdec hn
    cases hp.symm.trans hb

section Reached

variable [DecidableEq ι]

theorem Call.waiting_applied {r : EngineResult ι} {ids : List ι} (hwf : g.WellFormed)
    (htok : Placed g c.tokens) (hnodup : (c.tokens.map (·.id)).Nodup) (hr : c.outcome g = .ok r)
    (hids : ids.length = r.spawned.length) : ∀ t ∈ applyResult ids c.tokens r,
      t.state = .waiting ∧ t.nodeKey ∈ g.nodes.map (·.key) := by
  obtain ⟨work, -, henc, hquiet, -, hplace⟩ := Call.outcome_spec hnodup hr hids
  intro t ht
  obtain ⟨w, hw, hlive, hkey, -, hstate⟩ := exists_entry hplace ht
  exact ⟨hstate.symm.trans (W.state_eq_waiting hlive (hquiet w hw)), hkey ▸ henc.known hwf htok hw⟩

/-- The tokens of a run are live and stand at nodes of the graph. -/
theorem Reached.placed (hwf : g.WellFormed) (h : Reached g events tokens) : Placed g tokens := by
  induction h with
  | start id =>
    intro t ht
    rw [mem_singleton.mp ht]
    exact ⟨by simp, hwf.start_mem⟩
  | @call events c r ids tokens h hfun hr hids hperm ih =>
    intro t ht
    obtain ⟨hwait, hknown⟩ := Call.waiting_applied hwf ih h.nodup hr hids.length t
      (hperm.mem_iff.mpr ht)
    exact ⟨by simp [hwait], hknown⟩
  | @decide events before after t h hw hk ih =>
    intro u hu
    rcases mem_decided hu with hu | rfl
    · exact ih u hu
    · exact ⟨by simp, (ih t (by simp)).2⟩

/-- **An accepted workflow settles within the budget**: on the tokens of any run, with decisions
that `decide` accepts and conditions that do not break the parser, a call whose passages fit the
budget never gives up.  It returns with every token waiting, unless it is to resume a step where no
token waits, which it reports. -/
theorem settles_within_budget {ext : Externals} {caps : Option (List String)} {definition : Json}
    {c : Call ι} (hacc : Accepted ext caps definition g) (hguards : ParsableGuards g)
    (hdec : DecisionsAccepted g c.decisions) (hrun : Reached g events c.tokens) (hfit : c.Fits g) :
    c.outcome g ≠ .error .didNotSettle ∧
    ((∃ r, c.outcome g = .ok r ∧ ∀ ids, ids.length = r.spawned.length →
        ∀ t ∈ applyResult ids c.tokens r, t.state = .waiting) ∨
      ∃ k, c.target = some k ∧ (∀ t ∈ c.tokens, t.nodeKey = k → t.state ≠ .waiting) ∧
        c.outcome g = .error (.stepNotWaiting k)) := by
  have hwf := hacc.wellFormed
  have htok := hrun.placed hwf
  rcases Call.returns_cases hwf hguards hdec htok hfit with ⟨r, hr⟩ | ⟨k, htarget, hk, hno⟩
  · refine ⟨by simp [hr], .inl ⟨r, hr, fun ids hids t ht => ?_⟩⟩
    exact (Call.waiting_applied hwf htok hrun.nodup hr hids t ht).1
  · exact ⟨by simp [hk], .inr ⟨k, htarget, hno, hk⟩⟩

end Reached

/-! ## Work that exceeds the budget

At events and AND splits a token goes out on every edge.  A weight that counts the passages it
causes bounds the steps from below. -/

/-- The weight of the active entries. -/
def ahead (weight : String → ℕ) (work : List (W ι)) : ℕ :=
  (work.map fun w => if w.isActive then weight w.nodeKey else 0).sum

/-- A token passes an event or an AND split. -/
theorem ahead_spawnOn (weight : String → ℕ) (hw : work.find? W.isActive = some w)
    (edges : List GraphEdge) :
    ahead weight (spawnOn (setFirst W.isActive .consumed work) edges) + weight w.nodeKey =
      ahead weight work + (edges.map fun e => weight e.toKey).sum := by
  obtain ⟨before, after, rfl, hactive, hset⟩ := setFirst_of_find? hw
  have hspawned : ahead weight (edges.map (spawnedAt : GraphEdge → W ι)) =
      (edges.map fun e => weight e.toKey).sum := by
    simp [ahead, spawnedAt, W.isActive, comp_def]
  have happend (xs ys : List (W ι)) :
      ahead weight (xs ++ ys) = ahead weight xs + ahead weight ys := by
    simp [ahead]
  have hcons (x : W ι) (xs : List (W ι)) :
      ahead weight (x :: xs) = (if x.isActive then weight x.nodeKey else 0) + ahead weight xs := by
    simp [ahead]
  rw [hset, spawnOn, happend, happend, hspawned, hcons, happend, hcons, if_pos hactive]
  simp only [W.isActive, reduceCtorEq, decide_false, Bool.false_eq_true, if_false]
  omega

theorem exists_active_of_ahead (h : 0 < ahead weight work) :
    ∃ w, work.find? W.isActive = some w := by
  cases hw : work.find? W.isActive with
  | some w => exact ⟨w, rfl⟩
  | none =>
    have hzero : ahead weight work = 0 := by
      refine sum_eq_zero fun n hn => ?_
      obtain ⟨w, hmem, rfl⟩ := mem_map.mp hn
      exact if_neg (find?_eq_none.mp hw w hmem)
    omega

/-- A token at an event or an AND split goes out on every edge. -/
def Floods (n : GraphNode) : Prop :=
  n.type = .event ∨ n.type = .connector ∧ n.connectorDirection = some .split ∧
    n.connectorType = some .and

instance (n : GraphNode) : Decidable (Floods n) := by
  unfold Floods
  infer_instance

theorem process_floods (hn : run.idx.nodes w.nodeKey = some n) (hflood : Floods n) :
    process run work w =
      .ok (spawnOn (setFirst W.isActive .consumed work) (run.idx.out n.key), []) := by
  rw [process, hn]
  rcases hflood with htype | ⟨htype, hdirection, hand⟩
  · simp only [htype]
  · simp only [htype, connector, hdirection, hand, if_true]

/-- **More weight than fuel does not settle.** -/
theorem loop_didNotSettle {keys : List String}
    (hflood : ∀ k ∈ keys, ∃ n, run.idx.nodes k = some n ∧ n.key = k ∧ Floods n)
    (hkeys : ∀ k ∈ keys, ∀ e ∈ run.idx.out k, e.toKey ∈ keys)
    (hweight : ∀ k ∈ keys, weight k ≤ 1 + ((run.idx.out k).map fun e => weight e.toKey).sum)
    (hwork : ∀ w ∈ work, w.isActive = true → w.nodeKey ∈ keys)
    (hlt : fuel < ahead weight work) : loop run fuel work = .error .didNotSettle := by
  induction fuel generalizing work with
  | zero =>
    obtain ⟨w, hw⟩ := exists_active_of_ahead hlt
    rw [loop]
    simp only [hw]
  | succ fuel ih =>
    obtain ⟨w, hw⟩ := exists_active_of_ahead (Nat.zero_lt_of_lt hlt)
    have hkey := hwork w (mem_of_find?_eq_some hw) (by simpa using find?_some hw)
    obtain ⟨n, hn, hnkey, hfloods⟩ := hflood w.nodeKey hkey
    have hahead := ahead_spawnOn weight hw (run.idx.out n.key)
    have hle := hweight w.nodeKey hkey
    rw [← hnkey] at hle hahead
    have hnext : loop run fuel (spawnOn (setFirst W.isActive .consumed work)
        (run.idx.out n.key)) = .error .didNotSettle := by
      refine ih (fun u hu hactive => ?_) (by omega)
      rw [spawnOn] at hu
      rcases mem_append.mp hu with hu | hu
      · obtain ⟨before, after, hsplit, -, hset⟩ := setFirst_of_find? hw
        rw [hset] at hu
        have hmem : u ∈ work ∨ u = { w with state := .consumed } := by
          rw [hsplit]
          simp only [mem_append, mem_cons] at hu ⊢
          tauto
        rcases hmem with hmem | rfl
        · exact hwork u hmem hactive
        · cases hactive
      · obtain ⟨e, he, rfl⟩ := mem_map.mp hu
        exact hkeys n.key (hnkey ▸ hkey) e he
    rw [loop]
    simp only [hw, process_floods hn hfloods, hnext, bind, Except.bind]

theorem Call.outcome_of_loop
    (henter : c.enter g = .ok (run, work)) (hloop : runLoop run work = .error err) :
    c.outcome g = .error err := by
  rw [Call.outcome, Call.finish, henter]
  simp only [bind, Except.bind, hloop]

/-! ## Two workflows -/

theorem diamond_accepted : Accepted .plain none diamond.toJson diamond.flatten :=
  accepted_toJson (by decide) (by rfl) (by rfl)

theorem diamondStart_fits : diamondStart.Fits diamond.flatten := by
  intro run work henter
  obtain ⟨-, rfl, loaded, hload, rfl⟩ := Call.enter_ok henter
  cases hload
  exact ⟨fun k => if k = "e0" ∨ k = "as" then 1 else 0, by decide, by decide⟩

theorem diamond_parsable : ParsableGuards diamond.flatten :=
  .of_unconditional (by decide)

/-- The start of the diamond settles. -/
theorem settles_within_budget_diamond :
    diamondStart.outcome diamond.flatten ≠ .error .didNotSettle ∧
      ∃ r, diamondStart.outcome diamond.flatten = .ok r := by
  have h := settles_within_budget diamond_accepted diamond_parsable (fun _ _ h => by cases h)
    (.start 1) diamondStart_fits
  refine ⟨h.1, h.2.elim (fun ⟨r, hr, _⟩ => ⟨r, hr⟩) ?_⟩
  rintro ⟨k, ⟨⟩, -⟩

/-- Parallel edges between two nodes. -/
def parallel (source target : String) (keys : List String) : List GraphEdge :=
  keys.map fun k => .plain k source target

/-- Three AND splits in a row, each with seven branches to the event before the next. -/
def fan : Definition where
  start := "e0"
  nodes := [.event "e0", .connector "s1" .and .split, .event "e1", .connector "s2" .and .split,
    .event "e2", .connector "s3" .and .split, .event "e3"]
  edges := parallel "e0" "s1" ["a"]
    ++ parallel "s1" "e1" ["b", "c", "d", "e", "f", "g", "h"]
    ++ parallel "e1" "s2" ["i"]
    ++ parallel "s2" "e2" ["j", "k", "l", "m", "n", "o", "p"]
    ++ parallel "e2" "s3" ["q"]
    ++ parallel "s3" "e3" ["r", "s", "t", "u", "v", "w", "x"]

theorem fan_accepted : Accepted .plain none fan.toJson fan.flatten :=
  accepted_toJson (by decide) (by rfl) (by rfl)

theorem fan_acyclic : fan.flatten.Acyclic :=
  DerivedGraph.acyclic_of_rank (["e0", "s1", "e1", "s2", "e2", "s3", "e3"].idxOf ·)
    (by decide)

def fanStart : Call ℕ := { tokens := [⟨1, "e0", .active, none⟩] }

/-- How many passages a token at a node of the fan causes. -/
def fanWeight (k : String) : ℕ :=
  if k = "e0" then 457 else if k = "s1" then 456 else if k = "e1" then 65 else if k = "s2" then 64
  else if k = "e2" then 9 else if k = "s3" then 8 else 1

/-- The token of the start, loaded. -/
def fanToken : W ℕ := ⟨.existing, some 1, "e0", .active, none, true⟩

theorem fan_loop : loop (fan.flatten.run fanStart.context fanStart.decisions) 356 [fanToken] =
    .error .didNotSettle := by
  have hnodes : ∀ k ∈ ["e0", "s1", "e1", "s2", "e2", "s3", "e3"],
      ∃ n, fan.flatten.node? k = some n ∧ n.key = k ∧ Floods n := by
    simp only [forall_mem_cons, not_mem_nil, false_imp_iff, implies_true, and_true]
    exact ⟨⟨_, rfl, rfl, by decide⟩, ⟨_, rfl, rfl, by decide⟩, ⟨_, rfl, rfl, by decide⟩,
      ⟨_, rfl, rfl, by decide⟩, ⟨_, rfl, rfl, by decide⟩, ⟨_, rfl, rfl, by decide⟩,
      ⟨_, rfl, rfl, by decide⟩⟩
  have hkeys : ∀ k ∈ ["e0", "s1", "e1", "s2", "e2", "s3", "e3"], ∀ e ∈ fan.flatten.out k,
      e.toKey ∈ ["e0", "s1", "e1", "s2", "e2", "s3", "e3"] := by
    decide
  have hweight : ∀ k ∈ ["e0", "s1", "e1", "s2", "e2", "s3", "e3"],
      fanWeight k ≤ 1 + ((fan.flatten.out k).map fun e => fanWeight e.toKey).sum := by
    decide
  refine loop_didNotSettle hnodes hkeys hweight (fun w hw _ => ?_) (by decide)
  rw [mem_singleton.mp hw]
  decide

theorem fan_outcome : fanStart.outcome fan.flatten = .error .didNotSettle := by
  have hc : fan.flatten.Closed := fan_accepted.wellFormed.closed
  have hrun : (mkRun fan.flatten fanStart.context fanStart.decisions : Except (EngineError ℕ) Run) =
      .ok (fan.flatten.run fanStart.context fanStart.decisions) := mkRun_eq_ok.mpr ⟨hc, rfl⟩
  have hbudget :
      budget (fan.flatten.run fanStart.context fanStart.decisions).graph [fanToken] = 356 :=
    rfl
  have henter : fanStart.enter fan.flatten =
      .ok (fan.flatten.run fanStart.context fanStart.decisions, [fanToken]) := by
    rw [Call.enter, hrun]
    rfl
  refine Call.outcome_of_loop henter ?_
  rw [runLoop, hbudget]
  exact fan_loop

/-- **A published acyclic workflow can exceed the budget**: the fan needs 457 steps and
the budget is 356. -/
theorem fan_does_not_settle :
    ¬ ∀ (ext : Externals) (caps : Option (List String)) (definition : Json) (g : DerivedGraph)
      (events : List (Event ℕ)) (c : Call ℕ), Accepted ext caps definition g → g.Acyclic →
      Reached g events c.tokens → (∀ k ∈ c.target, g.IsFunction k) →
      c.outcome g ≠ .error .didNotSettle := by
  intro h
  refine h .plain none fan.toJson fan.flatten [] fanStart fan_accepted fan_acyclic (.start 1)
    (by simp [fanStart]) fan_outcome

end BbzPlatform.Workflow
