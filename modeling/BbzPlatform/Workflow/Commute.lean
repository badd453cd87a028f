import BbzPlatform.Workflow.OrJoin
import BbzPlatform.Workflow.Settling

/-!
# Finishing two steps in either order

Two function nodes hold a waiting token and both are finished, in the one order or in
the other.  Within the budget all calls return.  The accounts of the two traces agree at
every node, so the tokens left are the same, provided that no firing of a join merges
tokens and that no OR join is left behind.

A join takes all tokens present when it fires.  How many that are depends on when it
fires, so a join that merges is order dependent by nature.
-/

namespace BbzPlatform.Workflow

open RuleDsl TokenNet Multiset
open DerivedGraph

variable {ι : Type} {g : DerivedGraph} {run : Run} {work work' : List (W ι)} {w : W ι}
  {tokens : List (Token ι)} {p : W ι → Bool} {j k f : String} {t : Token ι} {context : Context}
  {decisions : Mapping (List String)} {events : List (Event ι)}

/-! ## The first token waiting at a node -/

/-- The token `resume_function` would take. -/
def firstWaiting (tokens : List (Token ι)) (k : String) : Option (Token ι) :=
  tokens.find? fun t => t.nodeKey = k && t.state = .waiting

/-- The old part of a work list: no entry is active, and the first one waiting at `k` is
still there. -/
def Holds (k : String) (first : W ι) (work : List (W ι)) : Prop :=
  ∃ old new, work = old ++ new ∧ (∀ w ∈ old, w.isActive = false) ∧
    old.find? (waitingAt k) = some first

theorem setFirst_append {s : TokenState} {old new : List (W ι)}
    (h : ∀ w ∈ old, p w = false) : setFirst p s (old ++ new) = old ++ setFirst p s new := by
  induction old with
  | nil => rfl
  | cons w old ih =>
    rw [List.cons_append, setFirst, if_neg (by simp [h w List.mem_cons_self]),
      ih fun v hv => h v (List.mem_cons_of_mem _ hv)]
    rfl

theorem waitingAt_consumeAt (hne : j ≠ k) (w : W ι) :
    waitingAt k (consumeAt j w) = waitingAt k w := by
  unfold consumeAt
  split_ifs with h
  · simp only [Bool.and_eq_true, decide_eq_true_eq] at h
    simp [waitingAt, h.1, hne]
  · rfl

theorem find?_setFirst (hne : j ≠ k) (work : List (W ι)) :
    (setFirst (waitingAt k) .consumed work).find? (waitingAt j) = work.find? (waitingAt j) := by
  induction work with
  | nil => rfl
  | cons w work ih =>
    rw [setFirst]
    split_ifs with hw
    · have hat := (waitingAt_iff.mp hw).1
      have h₁ : waitingAt j { w with state := .consumed } = false := by simp [waitingAt]
      have h₂ : waitingAt j w = false := by simp [waitingAt, hat, Ne.symm hne]
      rw [List.find?_cons_of_neg (by simp [h₁]), List.find?_cons_of_neg (by simp [h₂])]
    · rw [List.find?_cons, List.find?_cons, ih]

theorem isActive_setFirst (hp : ∀ w, p w = true → w.isLive = true)
    (h : ∀ w ∈ work, w.isActive = false) : ∀ w ∈ setFirst p .consumed work, w.isActive = false := by
  have hrest : List.Forall₂ Restated work (setFirst p .consumed work) :=
    restated_setFirst hp (by decide)
  intro w hw
  obtain ⟨v, hv, -, hact, -⟩ := Rows.exists_of_forall₂ hrest hw
  have hno := h v hv
  simp only [W.isActive, decide_eq_false_iff_not] at hno ⊢
  exact fun hw => hno (hact hw)

/-- No iteration touches what waits at a function node. -/
theorem Effect.holds {first : W ι} (h : Effect g run work w work')
    (hk : g.IsFunction k) (hh : Holds k first work) : Holds k first work' := by
  obtain ⟨old, new, rfl, hold, hfind⟩ := hh
  cases h with
  | park => exact ⟨old, _, setFirst_append hold, hold, hfind⟩
  | @pass edges =>
    refine ⟨old, setFirst W.isActive .consumed new ++ edges.map spawnedAt, ?_, hold, hfind⟩
    rw [spawnOn, setFirst_append hold, List.append_assoc]
  | fire why =>
    have hne : w.nodeKey ≠ k := by
      rintro rfl
      rw [isFunction_iff] at hk
      rcases why with ⟨h, -⟩ | h | ⟨h, -⟩ <;> rw [h] at hk <;> cases hk
    refine ⟨old.map (consumeAt w.nodeKey), new.map (consumeAt w.nodeKey)
      ++ (run.idx.out w.nodeKey).map spawnedAt, ?_, ?_, ?_⟩
    · rw [fireJoin_eq, List.map_append, List.append_assoc]
    · intro v hv
      obtain ⟨u, hu, rfl⟩ := List.mem_map.mp hv
      have := hold u hu
      unfold consumeAt
      split_ifs
      · rfl
      · exact this
    · have hsame : waitingAt k ∘ consumeAt w.nodeKey = (waitingAt k : W ι → Bool) :=
        funext (waitingAt_consumeAt hne)
      have hat := (waitingAt_iff.mp (List.find?_some hfind)).1
      rw [List.find?_map, hsame, hfind, Option.map_some, consumeAt, if_neg]
      simp [hat, Ne.symm hne]

theorem find?_entry (h : firstWaiting tokens k = some t) :
    (tokens.map Token.entry).find? (waitingAt k) = some t.entry := by
  rw [List.find?_map]
  exact congrArg (Option.map Token.entry) h

/-! ## Finishing a step -/

/-- A call of `resume_function` that returns, with the ids of the rows it makes. -/
structure Resumption (g : DerivedGraph) (context : Context) (decisions : Mapping (List String))
    (tokens : List (Token ι)) (k : String) where
  result : EngineResult ι
  ids : List ι
  returns : resumeFunction g tokens k context decisions = .ok result
  fresh : FreshIds ids tokens result

namespace Resumption

variable [DecidableEq ι]

def call (_ : Resumption g context decisions tokens k) : Call ι :=
  ⟨tokens, some k, context, decisions⟩

def after (r : Resumption g context decisions tokens k) : List (Token ι) :=
  applyResult r.ids tokens r.result

/-- The labels of the call. -/
def passages (r : Resumption g context decisions tokens k) : List (Passage String String) :=
  (r.call.steps g).map Iteration.passage

variable (r : Resumption g context decisions tokens k)

omit [DecidableEq ι] in
theorem outcome : r.call.outcome g = .ok r.result := r.returns

/-- The run that continues with the call. -/
theorem reached (h : Reached g events tokens) (hk : g.IsFunction k) :
    Reached g (events ++ [.call r.call]) r.after :=
  .call (c := r.call) h (by simpa [call] using hk) r.outcome r.fresh (.refl _)

theorem trace (hnodup : (tokens.map (·.id)).Nodup) (hk : g.IsFunction k) :
    Trace (GameStep g (g.run context decisions).selection) (marking tokens) r.passages
      (marking r.after) :=
  Call.trace_applied (c := r.call) hnodup (by simpa [call] using hk) r.outcome r.fresh.length
    (.refl _)

theorem waiting (hwf : g.WellFormed) (htok : Placed g tokens)
    (hnodup : (tokens.map (·.id)).Nodup) : ∀ t ∈ r.after, t.state = .waiting := fun t ht =>
  (Call.waiting_applied (c := r.call) hwf htok hnodup r.outcome r.fresh.length t ht).1

/-- How the work list of the call begins and ends. -/
theorem exists_work (hnodup : (tokens.map (·.id)).Nodup) :
    ∃ first work made, firstWaiting tokens k = some first ∧ g.Closed ∧
      r.call.enter g = .ok (g.run context decisions,
        spawnOn (setFirst (waitingAt k) .consumed (tokens.map Token.entry)) (g.out k)) ∧
      runLoop (g.run context decisions)
        (spawnOn (setFirst (waitingAt k) .consumed (tokens.map Token.entry)) (g.out k))
        = .ok (work, made) ∧
      r.after.map Token.place = (work.filter W.isLive).map W.place := by
  obtain ⟨work, hfinish, -, -, -, hplace⟩ := Call.outcome_spec (c := r.call) hnodup r.outcome
    r.fresh.length
  obtain ⟨hclosed, work₀, henter, hloop, loaded, hload, htarget⟩ := Call.finish_ok hfinish
  have hloaded : loaded = tokens.map Token.entry := eq_map_entry hload
  subst hloaded
  obtain ⟨w, hfind, rfl⟩ := resumeWork_ok (k := k) htarget
  rw [List.find?_map] at hfind
  obtain ⟨first, hfirst, -⟩ := Option.map_eq_some_iff.mp hfind
  exact ⟨first, work, _, hfirst, hclosed, henter, hloop, hplace⟩

/-- Finishing another step does not change which token is the next at a function. -/
theorem first_after (hquiet : ∀ t ∈ tokens, t.state = .waiting)
    (hnodup : (tokens.map (·.id)).Nodup) (hf : g.IsFunction f) (hne : f ≠ k)
    (ht : firstWaiting tokens f = some t) :
    ∃ u, firstWaiting r.after f = some u ∧ u.inboundEdgeKey = t.inboundEdgeKey := by
  obtain ⟨-, work, made, -, hclosed, -, hloop, hplace⟩ :=
    r.exists_work hnodup
  have hfind := find?_entry ht
  have hactive : ∀ w ∈ tokens.map Token.entry, w.isActive = false := by
    intro w hw
    obtain ⟨t, ht, rfl⟩ := List.mem_map.mp hw
    simp [W.isActive, Token.entry, hquiet t ht]
  have hstart : Holds f t.entry
      (spawnOn (setFirst (waitingAt k) .consumed (tokens.map Token.entry)) (g.out k)) :=
    ⟨_, _, rfl, isActive_setFirst (fun _ => isLive_of_waitingAt) hactive,
      (find?_setFirst hne _).trans hfind⟩
  obtain ⟨old, new, rfl, -, hold⟩ := loop_invariant (P := Holds f t.entry)
    (fun work w work' made hw hp hh => (process_effect rfl hclosed hw hp).holds hf hh) hloop hstart
  -- both lists are searched through what `place` shows of them
  have hsearch := congrArg (List.find? fun p : String × Option String × TokenState =>
    p.1 = f && p.2.2 = .waiting) hplace
  have hlive : ((old ++ new).filter W.isLive).find? (waitingAt f) = some t.entry := by
    rw [List.find?_filter]
    have hsame : (fun w : W ι => Decidable.decide (w.isLive = true ∧ waitingAt f w = true)) =
        waitingAt f := by
      funext w
      by_cases h : waitingAt f w = true
      · simp [h, isLive_of_waitingAt h]
      · simp [h]
    rw [hsame, List.find?_append, hold]
    rfl
  rw [List.find?_map, List.find?_map] at hsearch
  have hright : ((old ++ new).filter W.isLive).find?
      ((fun p : String × Option String × TokenState => p.1 = f && p.2.2 = .waiting) ∘ W.place)
      = some t.entry := hlive
  rw [hright, Option.map_some] at hsearch
  obtain ⟨u, hu, hplace⟩ := Option.map_eq_some_iff.mp hsearch
  refine ⟨u, hu, ?_⟩
  simp only [Token.place, W.place, Token.entry, Prod.mk.injEq] at hplace
  exact hplace.2.1

/-- A call takes the token it finishes and no other one at a function. -/
theorem takenAt_task (hlive : ∀ t ∈ tokens, t.state ≠ .consumed)
    (hnodup : (tokens.map (·.id)).Nodup) {n : String} (hn : g.IsFunction n)
    (ht : firstWaiting tokens k = some t) :
    takenAt r.passages n = if k = n then {t.inboundEdgeKey} else 0 := by
  obtain ⟨-, work, made, -, hclosed, henter, hloop, -⟩ := r.exists_work hnodup
  have hfind := find?_entry ht
  have hload : r.call.tokens.mapM mkExisting = .ok (tokens.map Token.entry) := mapM_mkExisting hlive
  have htarget : r.call.target = some k := rfl
  have hat := (waitingAt_iff.mp (List.find?_some hfind)).1
  have hpass := passage_pass (fun _ => isLive_of_waitingAt) hfind (g.out k)
  rw [hat] at hpass
  rw [passages, Call.steps, List.map_append, takenAt_append]
  simp only [Call.resumption, Call.loopIterations, htarget, hload, henter]
  rw [(loop_trace rfl hclosed hloop).takenAt_task (isFunction_iff.mp hn), add_zero,
    List.map_singleton, takenAt_single, hpass]
  rfl

/-- A call leaves what waits at a choice split that is decided by now. -/
theorem held_choice (hlive : ∀ t ∈ tokens, t.state ≠ .consumed)
    (hnodup : (tokens.map (·.id)).Nodup) (hk : g.IsFunction k) {n : String}
    (hn : g.net.role n = some .choice) (hsel : (g.run context decisions).selection n ≠ none) :
    held (marking r.after) n = held (marking tokens) n := by
  obtain ⟨t, work, made, ht, hclosed, henter, hloop, hplace⟩ := r.exists_work hnodup
  have hfind := find?_entry ht
  have hwait := List.find?_some hfind
  have hat := (waitingAt_iff.mp hwait).1
  have hne : ¬ (t.entry.tok.node = n ∧ t.entry.tok.active = false) := by
    rintro ⟨rfl, -⟩
    rw [W.tok_node, hat, isFunction_iff.mp hk] at hn
    cases hn
  have hmem := mem_live.mpr
    ⟨t.entry, List.mem_of_find?_eq_some hfind, isLive_of_waitingAt hwait, rfl⟩
  have hkept := (loop_trace rfl hclosed hloop).invariant
    (P := fun M => held M n = held (marking tokens) n)
    (fun M p M' hm h => (hm.held_choice hn hsel).trans h)
  rw [marking_of_places hplace]
  refine hkept ?_
  rw [live_spawnOn, held_add, held_sends, add_zero,
    live_setFirst_consumed (fun _ => isLive_of_waitingAt) hfind, held_erase hmem hne,
    live_loaded (mapM_mkExisting hlive)]

end Resumption

/-! ## What a run keeps -/

section Kept

variable [DecidableEq ι]

/-- In a run tokens wait only where they may, and a complete AND join is still to be
looked at. -/
theorem Reached.alert (h : Reached g events tokens) : Alert g.net (marking tokens) := by
  refine h.trace.invariant (fun M p M' hstep hal => ?_) ⟨?_, ?_⟩
  · obtain ⟨sel, -, hstep⟩ := hstep
    exact hstep.alert (fun _ h => h) hal
  · intro t ht _
    rw [mem_singleton.mp ht]
  · intro n _ hcomp
    obtain ⟨e, he⟩ := List.exists_mem_of_ne_nil _ hcomp.1
    obtain ⟨t, ht, hn, -⟩ := mem_viaAt.mp (hcomp.2 e he)
    refine ⟨t, ht, hn, ?_⟩
    rw [mem_singleton.mp ht]

/-- A token of a run came by an edge to its node, unless it is the first one. -/
theorem Reached.inbound (h : Reached g events tokens) :
    ∀ t ∈ tokens, (t.nodeKey = g.start ∧ t.inboundEdgeKey = none) ∨
      ∃ e ∈ g.edges, t.nodeKey = e.toKey ∧ t.inboundEdgeKey = some e.key := by
  induction h with
  | start id =>
    intro t ht
    rw [List.mem_singleton.mp ht]
    exact .inl ⟨rfl, rfl⟩
  | @call events c r ids tokens h hfun hr hids hperm ih =>
    intro t ht
    obtain ⟨work, -, ⟨old, new, rfl, hold, hnew⟩, -, -, hplace⟩ :=
      Call.outcome_spec h.nodup hr hids.length
    obtain ⟨w, hw, -, hkey, hvia, -⟩ := exists_entry hplace (hperm.mem_iff.mpr ht)
    rw [← hkey, ← hvia]
    rcases List.mem_append.mp hw with hw | hw
    · obtain ⟨u, hu, hload⟩ := Rows.exists_of_forall₂ hold hw
      rw [hload.nodeKey, hload.inbound]
      exact ih u hu
    · exact .inr (hnew w hw).edge
  | @decide events before after t h hw hk ih =>
    intro u hu
    rcases mem_decided hu with hu | rfl
    · exact ih u hu
    · exact ih t (by simp)

end Kept

/-! ## Both orders -/

/-- No firing of an AND join takes two tokens that came over one edge, and no firing of an XOR join
takes two tokens. -/
def Unmerged (g : DerivedGraph) (steps : List (Iteration ι)) : Prop :=
  ∀ i ∈ steps, ∀ n ∈ g.nodes, n.key = i.nodeKey → (n.role = some .andJoin → i.taken.Nodup) ∧
    (n.role = some .xorJoin → i.taken.length ≤ 1)

instance (g : DerivedGraph) (steps : List (Iteration ι)) : Decidable (Unmerged g steps) := by
  unfold Unmerged
  infer_instance

/-- A token at an OR join has another one before it. -/
def OrJoinsFed (g : DerivedGraph) (tokens : List (Token ι)) : Prop :=
  ∀ j, g.IsOrJoin j → (∃ t ∈ tokens, t.nodeKey = j) →
    ∃ t ∈ tokens, t.nodeKey ≠ j ∧ g.Reaches t.nodeKey j

theorem OrJoinsFed.fed (h : OrJoinsFed g tokens) : Fed g.net (marking tokens) := by
  rintro j hj ⟨⟨x, hx, hxj, -⟩, -, hno⟩
  obtain ⟨t, ht, rfl⟩ := mem_marking.mp hx
  obtain ⟨u, hu, hne, hr⟩ := h j (isOrJoin_iff.mpr hj) ⟨t, ht, hxj⟩
  exact hno ⟨u.tok, mem_marking.mpr ⟨u, hu, rfl⟩, hne, net_reaches.mpr hr⟩

theorem viaAt_marking (tokens : List (Token ι)) (k : String) :
    viaAt (marking tokens) k
      = ↑((tokens.filter (·.nodeKey = k)).map (·.inboundEdgeKey)) := by
  rw [viaAt, marking, filter_coe, List.filter_map, map_coe,
    List.map_map]
  rfl

/-- Waiting tokens are told apart by their node and their edge. -/
theorem map_place_eq {ts us : List (Token ι)} (hts : ∀ t ∈ ts, t.state = .waiting)
    (hus : ∀ t ∈ us, t.state = .waiting) (h : ∀ k, viaAt (marking ts) k = viaAt (marking us) k) :
    (↑(ts.map Token.place) : Multiset (String × Option String × TokenState))
      = ↑(us.map Token.place) := by
  have hcount : ∀ xs : List (Token ι), (∀ t ∈ xs, t.state = .waiting) →
      ∀ (k : String) (e : Option String) (s : TokenState),
      count (k, e, s) ↑(xs.map Token.place)
        = if s = .waiting then (viaAt (marking xs) k).count e else 0 := by
    intro xs hxs k e s
    rw [count, coe_countP, List.countP_map]
    split_ifs with hs
    · rw [viaAt_marking, count, coe_countP, List.countP_map, List.countP_filter]
      refine List.countP_congr fun t ht => ?_
      simp only [Function.comp_apply, Token.place, hxs t ht, hs, Prod.mk.injEq,
        decide_eq_true_eq, and_true, Bool.and_eq_true]
      exact ⟨fun h => ⟨h.2, h.1.symm⟩, fun h => ⟨h.2.symm, h.1⟩⟩
    · refine List.countP_eq_zero.mpr fun t ht => ?_
      simp only [Function.comp_apply, Token.place, hxs t ht, Prod.mk.injEq, decide_eq_true_eq]
      exact fun h => hs h.2.2
  refine ext.mpr fun p => ?_
  obtain ⟨k, e, s⟩ := p
  rw [hcount ts hts, hcount us hus, h k]

/-- Two steps finished in the one order and in the other, under one context and one set of
decisions. -/
structure TwoOrders (g : DerivedGraph) (context : Context) (decisions : Mapping (List String))
    (tokens : List (Token ι)) (f h : String) [DecidableEq ι] where
  first : Resumption g context decisions tokens f
  firstThen : Resumption g context decisions first.after h
  second : Resumption g context decisions tokens h
  secondThen : Resumption g context decisions second.after f

namespace TwoOrders

variable [DecidableEq ι] {h : String}

/-- The iterations of the calls of both orders. -/
def steps (o : TwoOrders g context decisions tokens f h) : List (Iteration ι) :=
  (o.first.call.steps g ++ o.firstThen.call.steps g) ++
    (o.second.call.steps g ++ o.secondThen.call.steps g)

/-- Both orders leave the same tokens and report the same completion. -/
def Agree (o : TwoOrders g context decisions tokens f h) : Prop :=
  (↑(o.firstThen.after.map Token.place) : Multiset (String × Option String × TokenState))
      = ↑(o.secondThen.after.map Token.place) ∧
    o.firstThen.result.completed = o.secondThen.result.completed

end TwoOrders

section Orders

variable [DecidableEq ι] {h : String}

omit [DecidableEq ι] in
theorem marking_quiet (h : ∀ t ∈ tokens, t.state = .waiting) :
    ∀ x ∈ marking tokens, x.active = false := by
  intro x hx
  obtain ⟨t, ht, rfl⟩ := mem_marking.mp hx
  simp [Token.tok, h t ht]

theorem DerivedGraph.net_inc (m n e : String) (h : (n, e) ∈ g.net.out m) : e ∈ g.net.inc n := by
  obtain ⟨x, hx, heq⟩ := List.mem_map.mp h
  simp only [GraphEdge.arc, Prod.mk.injEq] at heq
  refine List.mem_map.mpr ⟨x, mem_inc.mpr ⟨(mem_out.mp hx).1, heq.1⟩, heq.2⟩

theorem mem_nodes_of_role {role : Role} (h : g.net.role k = some role) :
    ∃ n ∈ g.nodes, n.key = k ∧ n.role = some role := by
  obtain ⟨n, hn, hr⟩ := exists_of_role h
  exact ⟨n, mem_nodes_of_node? hn, node?_key hn, hr⟩

omit [DecidableEq ι] in
theorem OrJoinsFed.of_none (h : ∀ n ∈ g.nodes, n.role ≠ some .orJoin) : OrJoinsFed g tokens := by
  intro j hj
  obtain ⟨n, hn, -, hrole⟩ := mem_nodes_of_role (isOrJoin_iff.mp hj)
  exact absurd hrole (h n hn)

/-- What a call in a run leaves: distinct ids, and every token waiting. -/
theorem Resumption.keeps (r : Resumption g context decisions tokens k)
    (hwf : g.WellFormed) (hrun : Reached g events tokens) (hk : g.IsFunction k) :
    (r.after.map (·.id)).Nodup ∧ (∀ t ∈ r.after, t.state = .waiting) ∧
      ∀ t ∈ r.after, t.state ≠ .consumed := by
  have hwait := r.waiting hwf (hrun.placed hwf) hrun.nodup
  exact ⟨(r.reached hrun hk).nodup, hwait, fun t ht => by simp [hwait t ht]⟩

/-- The call completes the instance exactly when it leaves no token. -/
theorem Resumption.completed_iff (r : Resumption g context decisions tokens k)
    (hnodup : (tokens.map (·.id)).Nodup) : r.result.completed = true ↔ r.after = [] := by
  obtain ⟨work, -, -, -, hr, hplace⟩ := Call.outcome_spec (c := r.call) hnodup r.outcome
    r.fresh.length
  have hplace : r.after.map Token.place = (work.filter W.isLive).map W.place := hplace
  have hlen : r.after.length = (work.filter W.isLive).length := by
    simpa using congrArg List.length hplace
  rw [hr, ← List.length_eq_zero_iff, hlen, List.length_eq_zero_iff, List.filter_eq_nil_iff]
  simp

/-- The start node is no AND join, so what waits at one came over an edge to it. -/
theorem Reached.via_andJoin {ext : Externals} {caps : Option (List String)} {definition : Json}
    (hacc : Accepted ext caps definition g) (hrun : Reached g events tokens) (n : String)
    (hr : g.net.role n = some .andJoin) :
    ∀ x ∈ viaAt (marking tokens) n, ∃ e ∈ g.net.inc n, x = some e := by
  intro x hx
  obtain ⟨y, hy, rfl, rfl⟩ := mem_viaAt.mp hx
  obtain ⟨t, ht, rfl⟩ := mem_marking.mp hy
  rcases hrun.inbound t ht with ⟨hstart, -⟩ | ⟨e, he, hto, hvia⟩
  · exfalso
    have hissues := hacc.issues.1
    rw [Token.tok, hstart] at hr
    obtain ⟨node, hn, hrole⟩ := exists_of_role hr
    have htype : node.type ≠ .event := by
      intro hev
      simp [GraphNode.role, hev] at hrole
    simp [startIssues, hn, htype] at hissues
  · refine ⟨e.key, ?_, hvia⟩
    exact List.mem_map_of_mem (mem_inc.mpr ⟨he, hto.symm⟩)

/-- **Two orders that return agree**, if no firing of a join takes two tokens as one and no OR join
is left waiting for nothing. -/
theorem TwoOrders.agree {ext : Externals} {caps : Option (List String)} {definition : Json}
    (hacc : Accepted ext caps definition g) (hac : g.Acyclic) (hrun : Reached g events tokens)
    (hquiet : ∀ t ∈ tokens, t.state = .waiting) (hne : f ≠ h) (hf : g.IsFunction f)
    (hh : g.IsFunction h) (o : TwoOrders g context decisions tokens f h)
    (hsingle : Unmerged g o.steps) (hfed₁ : OrJoinsFed g o.firstThen.after)
    (hfed₂ : OrJoinsFed g o.secondThen.after) : o.Agree := by
  have hwf := hacc.wellFormed
  have hnodup := hrun.nodup
  have hlive : ∀ t ∈ tokens, t.state ≠ .consumed := fun t ht => by simp [hquiet t ht]
  obtain ⟨hnodup₁, hquiet₁, hlive₁⟩ := o.first.keeps hwf hrun hf
  obtain ⟨hnodup₂, hquiet₂, hlive₂⟩ := o.second.keeps hwf hrun hh
  obtain ⟨-, hend₁, -⟩ := o.firstThen.keeps hwf (o.first.reached hrun hf) hh
  obtain ⟨-, hend₂, -⟩ := o.secondThen.keeps hwf (o.second.reached hrun hh) hf
  obtain ⟨tf, -, -, htf, -⟩ := o.first.exists_work hnodup
  obtain ⟨th, -, -, hth, -⟩ := o.second.exists_work hnodup
  obtain ⟨uh, huh, hvh⟩ := o.first.first_after hquiet hnodup hh (Ne.symm hne) hth
  obtain ⟨uf, huf, hvf⟩ := o.second.first_after hquiet hnodup hf hne htf
  have htrace₁ := (o.first.trace hnodup hf).trans (o.firstThen.trace hnodup₁ hh)
  have htrace₂ := (o.second.trace hnodup hh).trans (o.secondThen.trace hnodup₂ hf)
  have hfiring : ∀ p ∈ (o.first.passages ++ o.firstThen.passages) ++
      (o.second.passages ++ o.secondThen.passages), ∃ i ∈ o.steps, p = i.passage := by
    intro p hp
    simp only [Resumption.passages, ← List.map_append] at hp
    obtain ⟨i, hi, rfl⟩ := List.mem_map.mp hp
    exact ⟨i, hi, rfl⟩
  have hsame : ∀ k, viaAt (marking o.firstThen.after) k
      = viaAt (marking o.secondThen.after) k := by
    refine htrace₁.viaAt_eq (net_acyclic hac)
      (fun m n h => rank_lt_of_adj hwf hac (net_adj.mp h))
      (fun _ _ => selection_subset) net_inc (fun _ h => h)
      (fun M p M' h => ⟨_, fun _ _ h => h, h⟩) htrace₂ hrun.alert (hrun.via_andJoin hacc)
      (marking_quiet hend₁) (marking_quiet hend₂) hfed₁.fed hfed₂.fed ?_ ?_ ?_ ?_
    · intro p hp hr x
      obtain ⟨i, hi, rfl⟩ := hfiring p hp
      obtain ⟨m, hm, hkey, hrole⟩ := mem_nodes_of_role hr
      exact nodup_iff_count_le_one.mp (coe_nodup.mpr ((hsingle i hi m hm hkey).1 hrole)) x
    · intro p hp hr
      obtain ⟨i, hi, rfl⟩ := hfiring p hp
      obtain ⟨m, hm, hkey, hrole⟩ := mem_nodes_of_role hr
      exact (hsingle i hi m hm hkey).2 hrole
    · intro n hr
      have hn := isFunction_iff.mpr hr
      rw [takenAt_append, takenAt_append,
        o.first.takenAt_task hlive hnodup hn htf, o.firstThen.takenAt_task hlive₁ hnodup₁ hn huh,
        o.second.takenAt_task hlive hnodup hn hth, o.secondThen.takenAt_task hlive₂ hnodup₂ hn huf,
        hvf, hvh, add_comm]
    · intro n hr hsel
      rw [viaAt_eq_held (marking_quiet hend₁), viaAt_eq_held (marking_quiet hend₂),
        o.secondThen.held_choice hlive₂ hnodup₂ hf hr hsel,
        o.second.held_choice hlive hnodup hh hr hsel,
        o.firstThen.held_choice hlive₁ hnodup₁ hh hr hsel,
        o.first.held_choice hlive hnodup hf hr hsel]
  have hplaces := map_place_eq hend₁ hend₂ hsame
  refine ⟨hplaces, ?_⟩
  rw [Bool.eq_iff_iff, o.firstThen.completed_iff hnodup₁, o.secondThen.completed_iff hnodup₂]
  have hlen := congrArg card hplaces
  simp only [coe_card, List.length_map] at hlen
  rw [← List.length_eq_zero_iff, ← List.length_eq_zero_iff, hlen]

/-- The call that finishes one step, and the one that finishes the other after it, fit their
budgets. -/
def FitInTurn (g : DerivedGraph) (context : Context) (decisions : Mapping (List String))
    (tokens : List (Token ι)) (f h : String) : Prop :=
  Call.Fits g ⟨tokens, some f, context, decisions⟩ ∧
    ∀ r : Resumption g context decisions tokens f, Call.Fits g ⟨r.after, some h, context, decisions⟩

/-- The one step can be finished, and the other after it. -/
def ReturnInTurn (g : DerivedGraph) (context : Context) (decisions : Mapping (List String))
    (tokens : List (Token ι)) (f h : String) : Prop :=
  (∃ r, resumeFunction g tokens f context decisions = .ok r) ∧
    ∀ r : Resumption g context decisions tokens f,
      ∃ r', resumeFunction g r.after h context decisions = .ok r'

/-- A step can be finished within the budget. -/
theorem exists_resumed (hwf : g.WellFormed) (hguards : ParsableGuards g)
    (hdec : DecisionsAccepted g decisions) (hrun : Reached g events tokens)
    (hfit : Call.Fits g ⟨tokens, some k, context, decisions⟩)
    (ht : firstWaiting tokens k = some t) :
    ∃ r, resumeFunction g tokens k context decisions = .ok r := by
  rcases Call.returns_cases (c := ⟨tokens, some k, context, decisions⟩) hwf hguards hdec
    (hrun.placed hwf) hfit with hok | ⟨_, ⟨⟩, -, hno⟩
  · exact hok
  · have hwait := List.find?_some ht
    rw [Bool.and_eq_true, decide_eq_true_iff, decide_eq_true_iff] at hwait
    exact absurd hwait.2 (hno t (List.mem_of_find?_eq_some ht) hwait.1)

theorem FitInTurn.returns (hwf : g.WellFormed) (hguards : ParsableGuards g)
    (hdec : DecisionsAccepted g decisions) (hrun : Reached g events tokens)
    (hquiet : ∀ t ∈ tokens, t.state = .waiting) (hne : f ≠ h) (hf : g.IsFunction f)
    (hh : g.IsFunction h) (hwaits : ∀ k ∈ [f, h], ∃ t ∈ tokens, t.nodeKey = k)
    (hfit : FitInTurn g context decisions tokens f h) :
    ReturnInTurn g context decisions tokens f h := by
  have hfirst : ∀ k ∈ [f, h], ∃ t, firstWaiting tokens k = some t := by
    intro k hk
    obtain ⟨t, ht, hkey⟩ := hwaits k hk
    exact Option.isSome_iff_exists.mp (List.find?_isSome.mpr ⟨t, ht, by simp [hkey, hquiet t ht]⟩)
  obtain ⟨tf, htf⟩ := hfirst f (by simp)
  obtain ⟨th, hth⟩ := hfirst h (by simp)
  refine ⟨exists_resumed hwf hguards hdec hrun hfit.1 htf, fun r => ?_⟩
  obtain ⟨u, hu, -⟩ := r.first_after hquiet hrun.nodup hh (Ne.symm hne) hth
  exact exists_resumed hwf hguards hdec (r.reached hrun hf) (hfit.2 r) hu

/-- **Two steps can be finished in either order.**  Both orders return if the calls fit their
budgets, the decisions are accepted and no condition breaks the parser.  They end alike if no firing
of a join takes two tokens as one and no OR join is left waiting for nothing. -/
theorem steps_commute {ext : Externals} {caps : Option (List String)} {definition : Json}
    (hacc : Accepted ext caps definition g) (hac : g.Acyclic) (hrun : Reached g events tokens)
    (hquiet : ∀ t ∈ tokens, t.state = .waiting) (hne : f ≠ h) (hf : g.IsFunction f)
    (hh : g.IsFunction h) (hwaits : ∀ k ∈ [f, h], ∃ t ∈ tokens, t.nodeKey = k) :
    (ParsableGuards g → DecisionsAccepted g decisions → FitInTurn g context decisions tokens f h →
      FitInTurn g context decisions tokens h f →
      ReturnInTurn g context decisions tokens f h ∧ ReturnInTurn g context decisions tokens h f) ∧
    ∀ o : TwoOrders g context decisions tokens f h, Unmerged g o.steps →
      OrJoinsFed g o.firstThen.after → OrJoinsFed g o.secondThen.after → o.Agree := by
  have hwf := hacc.wellFormed
  refine ⟨fun hguards hdec hfit hfit' => ⟨?_, ?_⟩, fun o hsingle hfed₁ hfed₂ => ?_⟩
  · exact hfit.returns hwf hguards hdec hrun hquiet hne hf hh hwaits
  · exact hfit'.returns hwf hguards hdec hrun hquiet hne.symm hh hf fun k hk =>
      hwaits k (by simpa [or_comm] using hk)
  · exact o.agree hacc hac hrun hquiet hne hf hh hsingle hfed₁ hfed₂

end Orders

/-! ## Orders that agree and orders that do not -/

/-- Two parallel steps that lead to one XOR join. -/
def meeting : Definition :=
  fork [.connector "xj" .xor .join, .function "f3" .manual, .event "e1"]
    [.plain "d" "f1" "xj", .plain "e" "f2" "xj", .plain "f" "xj" "f3", .plain "g" "f3" "e1"]

theorem meeting_accepted : Accepted .plain none meeting.toJson meeting.flatten :=
  accepted_toJson (by decide) (by rfl) (by rfl)

theorem meeting_acyclic : meeting.flatten.Acyclic :=
  acyclic_of_rank (["e0", "as", "f1", "f2", "xj", "f3", "e1"].idxOf ·) (by decide)

theorem meeting_reached : Reached meeting.flatten [startCall fun _ => none] bothSteps :=
  reached_bothSteps [] rfl (by decide)

/-- A call that resumes one of the two steps fits its budget, since it passes the join once. -/
theorem meeting_fits {tokens : List (Token ℕ)} {k : String} {work : List (W ℕ)}
    (henter : Call.enter meeting.flatten ⟨tokens, some k, fun _ => none, fun _ => none⟩ =
      .ok (meeting.flatten.run (fun _ => none) (fun _ => none), work))
    (hactive : ∀ n ∈ meeting.flatten.nodes,
      work.countP (fun w => w.nodeKey = n.key && w.isActive) ≤ if n.key = "xj" then 1 else 0)
    (hcount : work.countP W.isActive ≤ 1) :
    Call.Fits meeting.flatten ⟨tokens, some k, fun _ => none, fun _ => none⟩ := by
  intro run work' henter'
  obtain ⟨rfl, rfl⟩ := Prod.mk.inj (Except.ok.inj (henter.symm.trans henter'))
  refine ⟨fun k => if k = "xj" then 1 else 0, fun n hn htask => .inl ?_, ?_⟩
  · have hsent : ∀ n ∈ meeting.flatten.nodes, n.role ≠ some .task →
        ((meeting.flatten.nodes.map fun m => (if m.key = "xj" then 1 else 0) *
          (sentEdges (meeting.flatten.run (fun _ => none) (fun _ => none)) m).countP
            (·.toKey = n.key)).sum) = 0 := by
      decide
    exact (Nat.add_le_add (hactive n hn) (hsent n hn htask).le).trans (by simp)
  · have hsum : (meeting.flatten.nodes.map fun m => (if m.key = "xj" then 1 else 0) *
        (sentEdges (meeting.flatten.run (fun _ => none) (fun _ => none)) m).length).sum = 1 := by
      decide
    refine (Nat.add_le_add hcount hsum.le).trans ?_
    rw [budget]
    omega

/-- Whatever id the new token gets, the second call fits too. -/
theorem meeting_fitInTurn :
    FitInTurn meeting.flatten (fun _ => none) (fun _ => none) bothSteps "f1" "f2" ∧
      FitInTurn meeting.flatten (fun _ => none) (fun _ => none) bothSteps "f2" "f1" := by
  refine ⟨⟨meeting_fits rfl (by decide) (by decide), fun r => ?_⟩,
    ⟨meeting_fits rfl (by decide) (by decide), fun r => ?_⟩⟩
  · have hresult : resumeFunction meeting.flatten bothSteps "f1" (fun _ => none) (fun _ => none) =
        .ok ⟨[2], [], [("f3", some "f")], [], false⟩ := by
      decide
    obtain ⟨result, ids, hreturns, hfresh⟩ := r
    obtain rfl := Except.ok.inj (hreturns.symm.trans hresult)
    obtain ⟨id, rfl⟩ := List.length_eq_one_iff.mp hfresh.length
    exact meeting_fits rfl (of_decide_eq_true rfl) (of_decide_eq_true rfl)
  · have hresult : resumeFunction meeting.flatten bothSteps "f2" (fun _ => none) (fun _ => none) =
        .ok ⟨[3], [], [("f3", some "f")], [], false⟩ := by
      decide
    obtain ⟨result, ids, hreturns, hfresh⟩ := r
    obtain rfl := Except.ok.inj (hreturns.symm.trans hresult)
    obtain ⟨id, rfl⟩ := List.length_eq_one_iff.mp hfresh.length
    exact meeting_fits rfl (of_decide_eq_true rfl) (of_decide_eq_true rfl)

theorem meeting_parsable : ParsableGuards meeting.flatten :=
  .of_unconditional (by decide)

/-- The two steps in both orders. -/
def meetingOrders :
    TwoOrders meeting.flatten (fun _ => none) (fun _ => none) bothSteps "f1" "f2" where
  first := ⟨⟨[2], [], [("f3", some "f")], [], false⟩, [4], by decide, by decide⟩
  firstThen := ⟨⟨[3], [], [("f3", some "f")], [], false⟩, [5], by decide, by decide⟩
  second := ⟨⟨[3], [], [("f3", some "f")], [], false⟩, [4], by decide, by decide⟩
  secondThen := ⟨⟨[2], [], [("f3", some "f")], [], false⟩, [5], by decide, by decide⟩

/-- The two steps can be finished in either order, and the join passes both tokens on. -/
theorem steps_commute_meeting :
    ReturnInTurn meeting.flatten (fun _ => none) (fun _ => none) bothSteps "f1" "f2" ∧
      ReturnInTurn meeting.flatten (fun _ => none) (fun _ => none) bothSteps "f2" "f1" ∧
      meetingOrders.Agree := by
  obtain ⟨hfit, hfit'⟩ := meeting_fitInTurn
  have hreturn := (steps_commute meeting_accepted meeting_acyclic meeting_reached
    (by decide) (by decide) (by decide) (by decide) (by decide)).1
    meeting_parsable (fun _ _ h => by cases h) hfit hfit'
  have hno : ∀ n ∈ meeting.flatten.nodes, n.role ≠ some .orJoin := by decide
  refine ⟨hreturn.1, hreturn.2, ?_⟩
  exact (steps_commute meeting_accepted meeting_acyclic meeting_reached
    (by decide) (by decide) (by decide) (by decide) (by decide)).2
    meetingOrders (by decide) (.of_none hno) (.of_none hno)

/-- Three parallel steps, of which two come to the AND join over one edge. -/
def merging : Definition :=
  fork [.function "f3" .manual, .event "m", .connector "aj" .and .join, .event "e1"]
    [.plain "d" "as" "f3", .plain "e" "f1" "aj", .plain "f" "f2" "m", .plain "g" "f3" "m",
      .plain "h" "m" "aj", .plain "i" "aj" "e1"]

theorem merging_accepted : Accepted .plain none merging.toJson merging.flatten :=
  accepted_toJson (by decide) (by rfl) (by rfl)

theorem merging_acyclic : merging.flatten.Acyclic :=
  acyclic_of_rank (["e0", "as", "f1", "f2", "f3", "m", "aj", "e1"].idxOf ·)
    (by decide)

/-- The tokens when the third step is done. -/
def mergingTokens : List (Token ℕ) :=
  [⟨2, "f1", .waiting, some "b"⟩, ⟨3, "f2", .waiting, some "c"⟩, ⟨5, "aj", .waiting, some "h"⟩]

theorem merging_reached : ∃ events, Reached merging.flatten events mergingTokens := by
  have h₀ : Reached merging.flatten [] [(⟨1, "e0", .active, none⟩ : Token ℕ)] := .start 1
  have h₁ := h₀.invoke none (fun _ => none) (fun _ => none)
    ⟨[1], [], [("f1", some "b"), ("f2", some "c"), ("f3", some "d")], [], false⟩ [2, 3, 4]
    (by simp) (by decide) (by decide)
  exact ⟨_, h₁.invoke (some "f3") (fun _ => none) (fun _ => none)
    ⟨[4], [], [("aj", some "h")], [], false⟩ [5]
    (by decide) (by decide) (by decide)⟩

/-- Finished first, the first step takes one token at the join with it, finished last it
takes two. -/
def mergingOrders :
    TwoOrders merging.flatten (fun _ => none) (fun _ => none) mergingTokens "f1" "f2" where
  first := ⟨⟨[2, 5], [], [], [], false⟩, [], by decide, by decide⟩
  firstThen := ⟨⟨[3], [], [("aj", some "h")], [], false⟩, [6], by decide, by decide⟩
  second := ⟨⟨[3], [], [("aj", some "h")], [], false⟩, [6], by decide, by decide⟩
  secondThen := ⟨⟨[2, 5, 6], [], [], [], true⟩, [], by decide, by decide⟩

/-- Two parallel steps of which the first leads to an XOR join on two ways, on one of them
through an AND join with the second. -/
def rejoining : Definition :=
  fork [.connector "at" .and .split, .event "m", .connector "aj" .and .join,
      .connector "xj" .xor .join, .function "f3" .manual, .event "e1"]
    [.plain "d" "f1" "at", .plain "e" "at" "m", .plain "f" "at" "aj", .plain "g" "f2" "aj",
      .plain "h" "m" "xj", .plain "i" "aj" "xj", .plain "j" "xj" "f3", .plain "k" "f3" "e1"]

theorem rejoining_accepted : Accepted .plain none rejoining.toJson rejoining.flatten :=
  accepted_toJson (by decide) (by rfl) (by rfl)

theorem rejoining_acyclic : rejoining.flatten.Acyclic :=
  acyclic_of_rank
    (["e0", "as", "f1", "f2", "at", "m", "aj", "xj", "f3", "e1"].idxOf ·) (by decide)

theorem rejoining_reached : Reached rejoining.flatten [startCall fun _ => none] bothSteps :=
  reached_bothSteps [] rfl (by decide)

/-- Finished last, the first step lets both tokens come to the XOR join in one call. -/
def rejoiningOrders :
    TwoOrders rejoining.flatten (fun _ => none) (fun _ => none) bothSteps "f1" "f2" where
  first :=
    ⟨⟨[2], [], [("aj", some "f"), ("f3", some "j")], [], false⟩, [4, 5], by decide, by decide⟩
  firstThen := ⟨⟨[3, 4], [], [("f3", some "j")], [], false⟩, [6], by decide, by decide⟩
  second := ⟨⟨[3], [], [("aj", some "g")], [], false⟩, [4], by decide, by decide⟩
  secondThen := ⟨⟨[2, 4], [], [("f3", some "j")], [], false⟩, [5], by decide, by decide⟩

/-- Finished first, the first step of the detour waits at the OR join for ever. -/
def detourOrders :
    TwoOrders detour.flatten unconfirmed (fun _ => none) bothSteps "f1" "f2" where
  first := ⟨⟨[2], [], [("oj", some "d")], [], false⟩, [4], by decide, by decide⟩
  firstThen := ⟨⟨[3], [], [], [⟨"xs", ["g"], true⟩], false⟩, [], by decide, by decide⟩
  second := ⟨⟨[3], [], [], [⟨"xs", ["g"], true⟩], false⟩, [], by decide, by decide⟩
  secondThen := ⟨⟨[2], [], [], [], true⟩, [], by decide, by decide⟩

/-- In every run of an accepted acyclic workflow, two steps agree under a condition on the
iterations. -/
def Agreement (cond : DerivedGraph → List (Iteration ℕ) → Prop) : Prop :=
  ∀ (ext : Externals) (caps : Option (List String)) (definition : Json) (g : DerivedGraph)
    (context : Context) (decisions : Mapping (List String)) (events : List (Event ℕ))
    (tokens : List (Token ℕ)) (f h : String) (o : TwoOrders g context decisions tokens f h),
    Accepted ext caps definition g → g.Acyclic → Reached g events tokens →
    (∀ t ∈ tokens, t.state = .waiting) → f ≠ h → g.IsFunction f → g.IsFunction h →
    cond g o.steps → o.Agree

/-- **The order of two steps can matter**: at an AND join that takes two tokens over one
edge, at an XOR join that takes two tokens, and at an OR join that is left behind. -/
theorem orders_differ :
    ¬ Agreement (fun _ _ => True) ∧
    ¬ Agreement (fun g steps => ∀ i ∈ steps, ∀ n ∈ g.nodes, n.key = i.nodeKey →
      n.role = some .andJoin → i.taken.Nodup) ∧
    ¬ Agreement Unmerged := by
  refine ⟨fun h => ?_, fun h => ?_, fun h => ?_⟩
  · obtain ⟨events, hrun⟩ := merging_reached
    have hagree := h _ _ _ _ _ _ events _ _ _ mergingOrders merging_accepted merging_acyclic hrun
      (by decide) (by decide) (by decide) (by decide) trivial
    exact absurd hagree.2 (by decide)
  · have hagree := h _ _ _ _ _ _ _ _ _ _ rejoiningOrders rejoining_accepted rejoining_acyclic
      rejoining_reached (by decide) (by decide) (by decide) (by decide) (by decide)
    exact absurd (congrArg card hagree.1) (by decide)
  · have hagree := h _ _ _ _ _ _ _ _ _ _ detourOrders detour_accepted detour_acyclic detour_started
      (by decide) (by decide) (by decide) (by decide) (by decide)
    exact absurd hagree.2 (by decide)

end BbzPlatform.Workflow
