import BbzPlatform.Workflow.Outcome

/-!
# Runs of the engine

A run starts with one active token on the start node.  It goes on by invocations of
the engine, whose results are applied to the token list, and by operator decisions,
which make a token parked at a choice split active again.  The order of the token
list is the database's, so it may change between the events.

Every event is a trace of the token game on the net of the graph, and so is a run.

## Main definitions

* `Call.steps` — the iterations of an invocation, resumption included.
* `Event`, `Reached` — what a run is made of, and the token lists it reaches.
* `marking` — the marking of a token list.
-/

namespace BbzPlatform.Workflow

open RuleDsl List
open TokenNet (Tok Marking Passage Selection Move Trace)

namespace DerivedGraph

variable (g : DerivedGraph)

/-- The key names a function node. -/
def IsFunction (k : String) : Prop := ∃ n, g.node? k = some n ∧ n.type = .function

/-- The key names an XOR or OR split. -/
def IsChoice (k : String) : Prop :=
  ∃ n, g.node? k = some n ∧ n.type = .connector ∧ n.connectorDirection = some .split ∧
    n.connectorType ≠ some .and

/-- The key names an OR join: the engine takes a join that is neither AND nor XOR for
one. -/
def IsOrJoin (k : String) : Prop :=
  ∃ n, g.node? k = some n ∧ n.type = .connector ∧ n.connectorDirection = some .join ∧
    n.connectorType ≠ some .and ∧ n.connectorType ≠ some .xor

variable {g} {k : String}

theorem role_eq_of_node {n : GraphNode} (h : g.node? k = some n) : g.net.role k = n.role := by
  simp [net, h]

theorem exists_of_role {role : TokenNet.Role} (h : g.net.role k = some role) :
    ∃ n, g.node? k = some n ∧ n.role = some role :=
  Option.bind_eq_some_iff.mp h

theorem isFunction_iff : g.IsFunction k ↔ g.net.role k = some .task := by
  constructor
  · rintro ⟨n, hn, ht⟩
    rw [role_eq_of_node hn, GraphNode.role, ht]
  · intro h
    obtain ⟨n, hn, hr⟩ := exists_of_role h
    obtain ⟨_, _, rfl, hf, -⟩ := process_treated (ι := String) n
    rw [hr] at hf
    cases hf with
    | task htype => exact ⟨n, hn, htype⟩

instance : Decidable (g.IsFunction k) := decidable_of_iff _ isFunction_iff.symm

theorem IsChoice.role (h : g.IsChoice k) : g.net.role k = some .choice := by
  obtain ⟨n, hn, ht, hd, hc⟩ := h
  simp [role_eq_of_node hn, GraphNode.role, ht, hd, hc]

theorem isOrJoin_iff : g.IsOrJoin k ↔ g.net.role k = some .orJoin := by
  constructor
  · rintro ⟨n, hn, ht, hd, h1, h2⟩
    rw [role_eq_of_node hn, GraphNode.role]
    cases hc : n.connectorType with
    | none => simp [ht, hd]
    | some c => cases c <;> simp_all
  · intro h
    obtain ⟨n, hn, hr⟩ := exists_of_role h
    obtain ⟨_, _, rfl, hf, -⟩ := process_treated (ι := String) n
    rw [hr] at hf
    cases hf with
    | orJoin htype hdir hand hxor => exact ⟨n, hn, htype, hdir, hand, hxor⟩

end DerivedGraph

variable {ι : Type} {ts tokens before after : List (Token ι)} {g : DerivedGraph} {c : Call ι}
  {run : Run} {work loaded : List (W ι)} {made : List DecisionMade} {r : EngineResult ι}
  {k : String} {t : Token ι} {ids : List ι}

/-! ## The iterations of an invocation -/

namespace Call

variable (g : DerivedGraph) (c : Call ι)

/-- The branches the invocation selects. -/
def selection : Selection String String := (g.run c.context c.decisions).selection

def loopIterations : List (Iteration ι) :=
  match c.enter g with
  | .error _ => []
  | .ok (run, work) => loopSteps run (budget run.graph work) work

def resumption : List (Iteration ι) :=
  match c.target, c.tokens.mapM mkExisting, c.enter g with
  | some k, .ok loaded, .ok (_, work) => [⟨k, loaded, work⟩]
  | _, _, _ => []

/-- The iterations of the invocation, in order. -/
def steps : List (Iteration ι) := c.resumption g ++ c.loopIterations g

end Call

def Token.tok (t : Token ι) : Tok String String := ⟨t.nodeKey, t.inboundEdgeKey, t.state = .active⟩

def marking (tokens : List (Token ι)) : Marking String String := ↑(tokens.map Token.tok)

theorem marking_perm {us : List (Token ι)} (h : ts.Perm us) : marking ts = marking us :=
  Multiset.coe_eq_coe.mpr (h.map _)

theorem mem_marking {x : Tok String String} : x ∈ marking ts ↔ ∃ t ∈ ts, t.tok = x := by
  simp [marking]

theorem live_loaded (h : tokens.mapM mkExisting = .ok loaded) : live loaded = marking tokens := by
  have hload := forall₂_of_mapM h
  clear h
  induction hload with
  | nil => rfl
  | @cons t w ts ws htw _ ih =>
    obtain ⟨hlive, rfl⟩ := mkExisting_eq_ok.mp htw
    have hentry : t.entry.isLive = true := decide_eq_true hlive
    rw [live_cons, if_pos hentry, ih]
    rfl

/-- The tokens after the mutations are the live entries with which the engine ended. -/
theorem marking_of_places (h : tokens.map Token.place = (work.filter W.isLive).map W.place) :
    marking tokens = live work := by
  have hmap := congrArg (map fun p : String × Option String × TokenState =>
    (⟨p.1, p.2.1, p.2.2 = .active⟩ : Tok String String)) h
  simp only [map_map] at hmap
  rw [marking, live, show tokens.map Token.tok = _ from hmap]
  rfl

/-- A step of the token game on the net of the graph, in which functions can be
finished from outside. -/
abbrev GameStep (g : DerivedGraph) (sel : Selection String String) :
    Marking String String → Passage String String → Marking String String → Prop :=
  TokenNet.Step g.net sel fun k => g.net.role k = some .task

theorem selection_subset {context : Context} {decisions : Mapping (List String)}
    {arcs : List (String × String)} (h : (g.run context decisions).selection k = some arcs) :
    arcs ⊆ g.net.out k := by
  obtain ⟨node, edges, report, hn, hch, rfl⟩ := Run.selection_eq_some h
  rw [← DerivedGraph.node?_key hn]
  exact map_subset _ (choose_spec hch).1.subset

/-- Finishing a function moves its first waiting token on. -/
theorem resume_step (hidx : run.idx = g.index)
    (hk : g.IsFunction k) (h : resumeWork run loaded k = .ok work) (sel : Selection String String) :
    GameStep g sel (live loaded) (Iteration.mk k loaded work).passage (live work) := by
  obtain ⟨w, hf, rfl⟩ := resumeWork_ok h
  have hw := find?_some hf
  obtain ⟨rfl, hwait⟩ := waitingAt_iff.mp hw
  have hout : (run.idx.out w.nodeKey).map GraphEdge.arc = g.net.out w.nodeKey := by
    rw [hidx]
    rfl
  rw [passage_pass (fun _ => isLive_of_waitingAt) hf, live_spawnOn,
    live_setFirst_consumed (fun _ => isLive_of_waitingAt) hf, hout]
  refine .finish (t := w.tok) ?_ ?_ ?_
  · exact mem_live.mpr ⟨w, mem_of_find?_eq_some hf, isLive_of_waitingAt hw, rfl⟩
  · simp [W.isActive, hwait]
  · exact DerivedGraph.isFunction_iff.mp hk

/-- **An invocation is a trace of the token game** from its tokens to the live entries
with which it ends. -/
theorem Call.trace (hfun : ∀ k ∈ c.target, g.IsFunction k) (h : c.finish g = .ok (work, made)) :
    Trace (GameStep g (c.selection g)) (marking c.tokens) ((c.steps g).map Iteration.passage)
      (live work) := by
  obtain ⟨hclosed, work₀, henter, hloop, loaded, hload, htarget⟩ := Call.finish_ok h
  have htrace : Trace (GameStep g (c.selection g)) (live work₀)
      ((c.loopIterations g).map Iteration.passage) (live work) := by
    simp only [Call.loopIterations, henter]
    exact (loop_trace rfl hclosed hloop).mono fun _ _ _ hm => .move hm
  rw [← live_loaded hload, Call.steps, map_append]
  refine Trace.trans ?_ htrace
  cases hc : c.target with
  | none =>
    simp only [hc] at htarget
    rw [htarget, Call.resumption, hc]
    exact .nil _
  | some k =>
    simp only [hc] at htarget
    simp only [Call.resumption, hc, hload, henter]
    exact .single (resume_step rfl (hfun k hc) htarget _)

theorem Call.steps_sound (hfun : ∀ k ∈ c.target, g.IsFunction k)
    (h : c.finish g = .ok (work, made)) :
    ∀ i ∈ c.steps g, GameStep g (c.selection g) (live i.before) i.passage (live i.after) := by
  obtain ⟨hclosed, work₀, henter, hloop, loaded, hload, htarget⟩ := Call.finish_ok h
  intro i hi
  rcases mem_append.mp hi with hi | hi
  · cases hc : c.target with
    | none => simp [Call.resumption, hc] at hi
    | some k =>
      simp only [hc] at htarget
      simp only [Call.resumption, hc, hload, henter, mem_singleton] at hi
      subst hi
      exact resume_step rfl (hfun k hc) htarget _
  · simp only [Call.loopIterations, henter] at hi
    refine loop_induction (P := fun fuel work _ => ∀ i ∈ loopSteps _ fuel work,
      GameStep g (c.selection g) (live i.before) i.passage (live i.after)) ?_ ?_ hloop i hi
    · intro fuel hnone i hi
      rw [loopSteps_none hnone] at hi
      cases hi
    · intro fuel work w mid made _ hw hp ih i hi
      rw [loopSteps_succ hw hp] at hi
      rcases mem_cons.mp hi with rfl | hi
      · exact .move (process_move rfl hclosed hw hp)
      · exact ih i hi

/-- A decision wakes the token parked at the split. -/
theorem wake_step (hw : t.state = .waiting) (hk : g.IsChoice t.nodeKey) :
    GameStep g (fun _ => none) (marking (before ++ t :: after)) ⟨t.nodeKey, 0, []⟩
      (marking (before ++ { t with state := .active } :: after)) := by
  have htok : marking (before ++ t :: after) = t.tok ::ₘ (marking before + marking after) := by
    simp [marking]
  have hafter : (marking (before ++ t :: after)).erase t.tok + {t.tok.awake}
      = marking (before ++ { t with state := .active } :: after) := by
    rw [htok, Multiset.erase_cons_head, add_comm]
    simpa [marking, Token.tok, Tok.awake] using perm_middle.symm
  rw [← hafter]
  exact .wake (t := t.tok) (by simp [htok]) (by simp [Token.tok, hw]) hk.role

/-! ## Runs -/

/-- What happens in a run: the engine is invoked, or an operator's decision makes the
token parked at a choice split active again. -/
inductive Event (ι : Type) where
  | call (c : Call ι)
  | decide (nodeKey : String)

namespace Event

variable (g : DerivedGraph)

def steps : Event ι → List (Iteration ι)
  | .call c => c.steps g
  | .decide _ => []

/-- An event as labels of the token game. -/
def passages : Event ι → List (Passage String String)
  | .call c => (c.steps g).map Iteration.passage
  | .decide k => [⟨k, 0, []⟩]

end Event

/-- Ids for the spawned rows that no token carries. -/
structure FreshIds (ids : List ι) (tokens : List (Token ι)) (r : EngineResult ι) : Prop where
  length : ids.length = r.spawned.length
  nodup : ids.Nodup
  disjoint : ∀ i ∈ ids, i ∉ tokens.map (·.id)

instance [DecidableEq ι] (ids : List ι) (tokens : List (Token ι)) (r : EngineResult ι) :
    Decidable (FreshIds ids tokens r) :=
  decidable_of_iff (ids.length = r.spawned.length ∧ ids.Nodup ∧ ∀ i ∈ ids, i ∉ tokens.map (·.id))
    ⟨fun ⟨hlength, hnodup, hdisjoint⟩ => ⟨hlength, hnodup, hdisjoint⟩,
      fun h => ⟨h.length, h.nodup, h.disjoint⟩⟩

/-- The token lists that runs of the engine reach, with the events that led there. -/
inductive Reached [DecidableEq ι] (g : DerivedGraph) : List (Event ι) → List (Token ι) → Prop where
  | start (id : ι) : Reached g [] [⟨id, g.start, .active, none⟩]
  | call {events : List (Event ι)} {c : Call ι} {r : EngineResult ι} {ids : List ι}
      {tokens : List (Token ι)} (h : Reached g events c.tokens)
      (hfun : ∀ k ∈ c.target, g.IsFunction k) (hr : c.outcome g = .ok r)
      (hids : FreshIds ids c.tokens r) (hperm : (applyResult ids c.tokens r).Perm tokens) :
      Reached g (events ++ [.call c]) tokens
  | decide {events : List (Event ι)} {before after : List (Token ι)} {t : Token ι}
      (h : Reached g events (before ++ t :: after)) (hw : t.state = .waiting)
      (hk : g.IsChoice t.nodeKey) :
      Reached g (events ++ [.decide t.nodeKey]) (before ++ { t with state := .active } :: after)

theorem Reached.invoke [DecidableEq ι] {events : List (Event ι)}
    (h : Reached g events tokens) (target : Option String)
    (context : Context) (decisions : Mapping (List String)) (r : EngineResult ι) (ids : List ι)
    (hfun : ∀ k ∈ target, g.IsFunction k)
    (hr : Call.outcome g ⟨tokens, target, context, decisions⟩ = .ok r)
    (hids : FreshIds ids tokens r) :
    Reached g (events ++ [.call ⟨tokens, target, context, decisions⟩])
      (applyResult ids tokens r) :=
  .call h hfun hr hids (.refl _)

theorem mem_decided {t' u : Token ι}
    (h : u ∈ before ++ t' :: after) : u ∈ before ++ t :: after ∨ u = t' := by
  grind

/-- A step of the token game under some selection of outgoing edges. -/
def RunStep (g : DerivedGraph) (M : Marking String String) (p : Passage String String)
    (M' : Marking String String) : Prop :=
  ∃ sel, (∀ n es, sel n = some es → es ⊆ g.net.out n) ∧ GameStep g sel M p M'

section Reached

variable [DecidableEq ι] {events : List (Event ι)}

/-- The ids of a token list after the mutations. -/
theorem map_id_applyResult (hids : FreshIds ids tokens r)
    (hnodup : (tokens.map (·.id)).Nodup) : ((applyResult ids tokens r).map (·.id)).Nodup := by
  have hkept : (kept tokens r).map (·.id) = (tokens.filter (·.id ∉ r.consumed)).map (·.id) := by
    rw [kept, map_map]
    refine map_congr_left fun t _ => ?_
    simp only [Function.comp]
    split_ifs <;> rfl
  have hspawned : (spawnedTokens ids r.spawned).map (·.id) = ids := by
    have := hids.length
    generalize r.spawned = pairs at this
    clear hids hkept
    induction ids generalizing pairs with
    | nil => rfl
    | cons i ids ih =>
      cases pairs with
      | nil => simp at this
      | cons p pairs =>
        have := ih pairs (by simpa using this)
        simpa [spawnedTokens] using this
  have hsub : (tokens.filter (·.id ∉ r.consumed)).Sublist tokens := filter_sublist
  rw [applyResult, map_append, hkept, hspawned, nodup_append]
  refine ⟨hnodup.sublist (hsub.map _), hids.nodup, ?_⟩
  intro i hi j hj hij
  subst hij
  exact hids.disjoint i hj (hsub.map _ |>.subset hi)

/-- The tokens of a run have distinct ids. -/
theorem Reached.nodup (h : Reached g events tokens) : (tokens.map (·.id)).Nodup := by
  induction h with
  | start id => simp
  | call _ _ _ hids hperm ih =>
    exact (hperm.map _).nodup_iff.mp (map_id_applyResult hids ih)
  | decide _ _ _ ih => simpa using ih

theorem Call.trace_applied
    (hnodup : (c.tokens.map (·.id)).Nodup) (hfun : ∀ k ∈ c.target, g.IsFunction k)
    (hr : c.outcome g = .ok r) (hids : ids.length = r.spawned.length)
    (hperm : (applyResult ids c.tokens r).Perm tokens) :
    Trace (GameStep g (c.selection g)) (marking c.tokens) ((c.steps g).map Iteration.passage)
      (marking tokens) := by
  obtain ⟨work, hfinish, -, -, -, hplace⟩ := Call.outcome_spec hnodup hr hids
  rw [← marking_perm hperm, marking_of_places hplace]
  exact Call.trace hfun hfinish

/-- **A run is a trace of the token game** from one active token on the start node. -/
theorem Reached.trace (h : Reached g events tokens) :
    Trace (RunStep g) {⟨g.start, none, true⟩} (events.flatMap (Event.passages g))
      (marking tokens) := by
  induction h with
  | start id => exact .nil _
  | @call events c r ids tokens h hfun hr hids hperm ih =>
    rw [flatMap_append, flatMap_singleton]
    refine ih.trans ((Call.trace_applied h.nodup hfun hr hids.length hperm).mono ?_)
    exact fun _ _ _ hs => ⟨c.selection g, fun _ _ => selection_subset, hs⟩
  | @decide events before after t h hw hk ih =>
    rw [flatMap_append, flatMap_singleton]
    refine ih.trans (.single ⟨fun _ => none, by simp, ?_⟩)
    exact wake_step hw hk

end Reached

end BbzPlatform.Workflow
