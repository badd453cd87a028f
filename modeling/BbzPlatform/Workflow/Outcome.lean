import BbzPlatform.Lib.Rows
import BbzPlatform.Workflow.Steps

/-!
# What an invocation returns

The result of the engine encodes its final work list as mutations of the token
table: loaded tokens that were consumed, loaded active tokens that now wait, and
pairs for the new tokens.  `applyResult` carries these out.  The encoding loses
nothing: the tokens after it are the live entries with which the engine ended, in
the same order, and a second run finds nothing to do.
-/

namespace BbzPlatform.Workflow

open RuleDsl Raising List

def DerivedGraph.run (g : DerivedGraph) (context : Context) (decisions : Mapping (List String)) :
    Run :=
  ⟨g.index, g, context, decisions⟩

variable {ι : Type} {g : DerivedGraph} {c : Call ι} {run : Run}
  {work loaded work' old new : List (W ι)} {made : List DecisionMade} {r : EngineResult ι}
  {k : String} {tokens : List (Token ι)} {a b w : W ι} {t : Token ι} {p : W ι → Bool}
  {s : TokenState} {fuel : ℕ} {d : DecisionMade} {ids : List ι}

/-! ## Inversion of an invocation -/

theorem DerivedGraph.closed_iff : g.Closed ↔ g.sortedEdges.findSome? g.missingKey = none := by
  simp only [findSome?_eq_none_iff, DerivedGraph.mem_sortedEdges, DerivedGraph.Closed,
    DerivedGraph.missingKey]
  refine forall₂_congr fun e _ => ?_
  split_ifs <;> simp_all

/-- The index can be built exactly when every endpoint is a node. -/
theorem mkRun_eq_ok {context : Context} {decisions : Mapping (List String)} :
    (mkRun g context decisions : Except (EngineError ι) Run) = .ok run ↔
      g.Closed ∧ run = g.run context decisions := by
  rw [DerivedGraph.closed_iff, mkRun, mkIndex]
  cases g.sortedEdges.findSome? g.missingKey with
  | some key => simp [bind, Except.bind]
  | none => simp [bind, Except.bind, DerivedGraph.run, eq_comm]

theorem Call.enter_ok (h : c.enter g = .ok (run, work)) :
    g.Closed ∧ run = g.run c.context c.decisions ∧
      ∃ loaded, c.tokens.mapM mkExisting = .ok loaded ∧
        (match c.target with
          | none => work = loaded
          | some k => resumeWork run loaded k = .ok work) := by
  obtain ⟨run₀, hrun, h⟩ := bind_eq_ok.mp h
  obtain ⟨loaded, hload, h⟩ := bind_eq_ok.mp h
  obtain ⟨hclosed, rfl⟩ := mkRun_eq_ok.mp hrun
  cases htarget : c.target with
  | none =>
    simp only [htarget] at h
    cases h
    exact ⟨hclosed, rfl, _, hload, rfl⟩
  | some k =>
    simp only [htarget] at h
    obtain ⟨work, hres, ⟨⟩⟩ := bind_eq_ok.mp h
    exact ⟨hclosed, rfl, loaded, hload, hres⟩

theorem Call.finish_ok (h : c.finish g = .ok (work, made)) :
    g.Closed ∧ ∃ work₀, c.enter g = .ok (g.run c.context c.decisions, work₀) ∧
      runLoop (g.run c.context c.decisions) work₀ = .ok (work, made) ∧
      ∃ loaded, c.tokens.mapM mkExisting = .ok loaded ∧
        (match c.target with
          | none => work₀ = loaded
          | some k => resumeWork (g.run c.context c.decisions) loaded k = .ok work₀) := by
  obtain ⟨⟨run, work₀⟩, henter, h⟩ := bind_eq_ok.mp h
  obtain ⟨hclosed, rfl, hrest⟩ := Call.enter_ok henter
  exact ⟨hclosed, work₀, henter, h, hrest⟩

theorem Call.outcome_ok (h : c.outcome g = .ok r) :
    ∃ work made, c.finish g = .ok (work, made) ∧ result work made = .ok r := by
  obtain ⟨⟨work, made⟩, hfinish, h⟩ := bind_eq_ok.mp h
  exact ⟨work, made, hfinish, h⟩

/-- The work list of a resumption that can start. -/
theorem resumeWork_ok (h : resumeWork run loaded k = .ok work) :
    ∃ w, loaded.find? (waitingAt k) = some w ∧
      work = spawnOn (setFirst (waitingAt k) .consumed loaded) (run.idx.out k) := by
  unfold resumeWork at h
  cases hf : loaded.find? (waitingAt k) with
  | none => rw [hf] at h; cases h
  | some w =>
    simp only [hf, Except.ok.injEq] at h
    exact ⟨w, rfl, h.symm⟩

theorem result_ok (h : result work made = .ok r) :
    r = ⟨consumedIds work, parkedIds work, spawnedPairs work, made, !work.any W.isLive⟩ := by
  unfold result at h
  split_ifs at h
  cases h
  rfl

/-- A work list without active entries is encoded. -/
theorem result_of_quiet (h : ∀ w ∈ work, w.isActive = false) :
    result work made =
      .ok ⟨consumedIds work, parkedIds work, spawnedPairs work, made, !work.any W.isLive⟩ := by
  unfold result
  rw [if_neg]
  simp only [any_eq_true, Bool.and_eq_true, not_exists, not_and]
  intro w hw _
  simp [h w hw]

/-! ## Loaded and new entries -/

/-- An entry that was loaded from a token, whatever became of it since. -/
structure Loaded (t : Token ι) (w : W ι) : Prop where
  origin : w.origin = .existing
  id : w.id = some t.id
  nodeKey : w.nodeKey = t.nodeKey
  inbound : w.inbound = t.inboundEdgeKey
  wasActive : w.wasActive = decide (t.state = .active)
  live : t.state ≠ .consumed
  settled : t.state = .waiting → w.state ≠ .active

/-- An entry that was made at the end of an edge. -/
structure Fresh (g : DerivedGraph) (w : W ι) : Prop where
  origin : w.origin = .spawned
  edge : ∃ e ∈ g.edges, w.nodeKey = e.toKey ∧ w.inbound = some e.key

/-- The work list holds an entry for each token, in order, and then new entries. -/
def Encodes (g : DerivedGraph) (tokens : List (Token ι)) (work : List (W ι)) : Prop :=
  ∃ old new, work = old ++ new ∧ Forall₂ Loaded tokens old ∧ ∀ w ∈ new, Fresh g w

/-- The same entry in another state: never made active again, and never live again. -/
def Restated (a b : W ι) : Prop :=
  b = { a with state := b.state } ∧ (b.state = .active → a.state = .active) ∧
    (a.state = .consumed → b.state = .consumed)

theorem Restated.refl (a : W ι) : Restated a a := ⟨rfl, fun h => h, fun h => h⟩

theorem Restated.trans {c : W ι} (h : Restated a b) (h' : Restated b c) : Restated a c := by
  refine ⟨?_, fun hc => h.2.1 (h'.2.1 hc), fun ha => h'.2.2 (h.2.2 ha)⟩
  rw [h'.1, h.1]

theorem Loaded.restated (h : Loaded t a) (hab : Restated a b) : Loaded t b := by
  obtain ⟨heq, hact, -⟩ := hab
  rw [heq]
  exact ⟨h.origin, h.id, h.nodeKey, h.inbound, h.wasActive, h.live,
    fun hw hb => h.settled hw (hact hb)⟩

theorem Fresh.restated (h : Fresh g a) (hab : Restated a b) : Fresh g b := by
  rw [hab.1]
  exact ⟨h.origin, h.edge⟩

theorem restated_setFirst (hp : ∀ w, p w = true → w.isLive = true) (hs : s ≠ .active) :
    Forall₂ Restated work (setFirst p s work) := by
  induction work with
  | nil => exact .nil
  | cons w work ih =>
    rw [setFirst]
    split_ifs with hw
    · refine .cons ⟨rfl, fun h => absurd h hs, fun hdead => ?_⟩
        (forall₂_same.mpr fun a _ => Restated.refl a)
      exact absurd hdead (by simpa [W.isLive] using hp w hw)
    · exact .cons (Restated.refl w) ih

theorem mem_setFirst (h : work.find? p = some w) : { w with state := s } ∈ setFirst p s work := by
  obtain ⟨before, after, rfl, -, hset⟩ := setFirst_of_find? h
  rw [hset]
  exact mem_append_right _ mem_cons_self

theorem restated_map_consumeAt (k : String) :
    Forall₂ Restated work (work.map (consumeAt k)) := by
  rw [forall₂_map_right_iff]
  refine forall₂_same.mpr fun a _ => ?_
  unfold consumeAt
  split_ifs
  · exact ⟨rfl, fun h => (by cases h), fun _ => rfl⟩
  · exact Restated.refl a

theorem forall₂_comp {α β γ : Type} {R : α → β → Prop} {S : β → γ → Prop} {T : α → γ → Prop}
    {as : List α} {bs : List β} {cs : List γ} (h : Forall₂ R as bs)
    (h' : Forall₂ S bs cs) (hcomp : ∀ a b c, R a b → S b c → T a c) :
    Forall₂ T as cs := by
  induction h generalizing cs with
  | nil =>
    cases h'
    exact .nil
  | cons hab _ ih =>
    cases h' with
    | cons hbc h' => exact .cons (hcomp _ _ _ hab hbc) (ih h')

/-- Restating entries and adding new ones keeps the encoding. -/
theorem Encodes.extend {rest : List (W ι)} {edges : List GraphEdge} (h : Encodes g tokens work)
    (hrest : Forall₂ Restated work rest) (hedges : ∀ e ∈ edges, e ∈ g.edges) :
    Encodes g tokens (rest ++ edges.map spawnedAt) := by
  obtain ⟨old, new, rfl, hold, hnew⟩ := h
  have htake := forall₂_take old.length hrest
  have hdrop := forall₂_drop old.length hrest
  rw [take_left] at htake
  rw [drop_left] at hdrop
  refine ⟨rest.take old.length, rest.drop old.length ++ edges.map spawnedAt, ?_,
    forall₂_comp hold htake fun _ _ _ => Loaded.restated, ?_⟩
  · rw [← append_assoc, take_append_drop]
  · refine forall_mem_append.mpr ⟨fun w hw => ?_, forall_mem_map.mpr fun e he =>
      ⟨rfl, e, hedges e he, rfl, rfl⟩⟩
    obtain ⟨v, hv, hvw⟩ := Rows.exists_of_forall₂ hdrop hw
    exact (hnew v hv).restated hvw

/-- An iteration restates the entries and adds new ones. -/
theorem Effect.restated (h : Effect g run work w work') :
    ∃ rest edges, work' = rest ++ edges.map spawnedAt ∧ Forall₂ Restated work rest ∧
      edges ⊆ run.idx.out w.nodeKey := by
  cases h with
  | park why =>
    exact ⟨_, [], (append_nil _).symm,
      restated_setFirst (fun _ => W.isLive_of_isActive) (by decide), nil_subset _⟩
  | pass hsub why =>
    exact ⟨_, _, rfl, restated_setFirst (fun _ => W.isLive_of_isActive) (by decide), hsub⟩
  | fire why => exact ⟨_, _, rfl, restated_map_consumeAt _, Subset.refl _⟩

theorem Effect.encodes (hidx : run.idx = g.index) (h : Effect g run work w work')
    (henc : Encodes g tokens work) : Encodes g tokens work' := by
  obtain ⟨rest, edges, rfl, hrest, hsub⟩ := h.restated
  rw [hidx] at hsub
  exact henc.extend hrest fun e he => (DerivedGraph.mem_out.mp (hsub he)).1

def Token.entry (t : Token ι) : W ι :=
  ⟨.existing, some t.id, t.nodeKey, t.state, t.inboundEdgeKey, t.state = .active⟩

/-- Live tokens can be loaded. -/
theorem mkExisting_eq_ok : mkExisting t = .ok w ↔ t.state ≠ .consumed ∧ w = t.entry := by
  unfold mkExisting
  cases hs : t.state <;> simp [Token.entry, hs, eq_comm]

theorem loaded_mkExisting (h : mkExisting t = .ok w) : Loaded t w := by
  obtain ⟨hlive, rfl⟩ := mkExisting_eq_ok.mp h
  exact ⟨rfl, rfl, rfl, rfl, rfl, hlive, fun hw => by simp [Token.entry, hw]⟩

theorem forall₂_of_mapM {α β ε : Type} {f : α → Except ε β} {as : List α} {bs : List β}
    (h : as.mapM f = .ok bs) : Forall₂ (fun a b => f a = .ok b) as bs := by
  induction as generalizing bs with
  | nil =>
    cases h
    exact .nil
  | cons a as ih =>
    rw [mapM_cons] at h
    obtain ⟨b, hf, h⟩ := bind_eq_ok.mp h
    obtain ⟨rest, hrest, ⟨⟩⟩ := bind_eq_ok.mp h
    exact .cons hf (ih hrest)

theorem mapM_mkExisting (hlive : ∀ t ∈ tokens, t.state ≠ .consumed) :
    tokens.mapM mkExisting
      = (.ok (tokens.map Token.entry) : Except (EngineError ι) (List (W ι))) := by
  induction tokens with
  | nil => rfl
  | cons t tokens ih =>
    rw [mapM_cons, mkExisting_eq_ok.mpr ⟨hlive t mem_cons_self, rfl⟩,
      ih fun u hu => hlive u (mem_cons_of_mem _ hu)]
    rfl

theorem eq_map_entry (h : tokens.mapM mkExisting = .ok loaded) :
    loaded = tokens.map Token.entry := by
  have hlive : ∀ t ∈ tokens, t.state ≠ .consumed := by
    intro t ht
    obtain ⟨w, -, hw⟩ := Rows.exists_of_forall₂ (forall₂_of_mapM h).flip ht
    exact (mkExisting_eq_ok.mp hw).1
  rw [mapM_mkExisting hlive] at h
  exact (Except.ok.inj h).symm

theorem Call.enter_encodes (h : c.enter g = .ok (run, work)) : Encodes g c.tokens work := by
  obtain ⟨hclosed, rfl, loaded, hload, htarget⟩ := Call.enter_ok h
  have hloaded : Encodes g c.tokens loaded := by
    refine ⟨loaded, [], by simp, ?_, by simp⟩
    exact (forall₂_of_mapM hload).imp fun _ _ => loaded_mkExisting
  cases hc : c.target with
  | none =>
    simp only [hc] at htarget
    exact htarget ▸ hloaded
  | some k =>
    simp only [hc] at htarget
    obtain ⟨w, -, rfl⟩ := resumeWork_ok htarget
    exact hloaded.extend (restated_setFirst (fun _ => isLive_of_waitingAt) (by decide))
      fun e he => (DerivedGraph.mem_out.mp he).1

theorem loop_restated (hidx : run.idx = g.index)
    (hc : g.Closed) (h : loop run fuel work = .ok (work', made)) :
    ∃ rest new, work' = rest ++ new ∧ Forall₂ Restated work rest := by
  refine loop_invariant (P := fun mid => ∃ rest new, mid = rest ++ new ∧
    Forall₂ Restated work rest) ?_ h
    ⟨work, [], (append_nil _).symm, forall₂_same.mpr fun a _ => Restated.refl a⟩
  rintro mid w mid' made hw hp ⟨rest, new, rfl, hrest⟩
  obtain ⟨all, edges, rfl, hall, -⟩ := (process_effect hidx hc hw hp).restated
  have htake := forall₂_take rest.length hall
  rw [take_left] at htake
  refine ⟨all.take rest.length, all.drop rest.length ++ edges.map spawnedAt, ?_, ?_⟩
  · rw [← append_assoc, take_append_drop]
  · exact forall₂_comp hrest htake fun _ _ _ => Restated.trans

/-- **Throughout an invocation the work list encodes the loaded tokens.** -/
theorem Call.finish_encodes (h : c.finish g = .ok (work, made)) :
    Encodes g c.tokens work ∧ ∀ w ∈ work, w.isActive = false := by
  obtain ⟨hclosed, work₀, henter, hloop, -⟩ := Call.finish_ok h
  refine ⟨loop_invariant ?_ hloop (Call.enter_encodes henter), loop_quiet hloop⟩
  intro work w work' made hw hp henc
  exact (process_effect rfl hclosed hw hp).encodes rfl henc

/-! ## The reported decisions -/

/-- The decision reports what a choice split selected by its conditions. -/
def DecisionMade.MadeAt (run : Run) (d : DecisionMade) (n : GraphNode) : Prop :=
  n.role = some .choice ∧
    ∃ edges, choose run n = .ok (some (edges, true)) ∧ d = ⟨n.key, edges.map (·.key), true⟩

theorem process_made (h : process run work w = .ok (work', made)) (hd : d ∈ made) :
    ∃ n, run.idx.nodes w.nodeKey = some n ∧ d.MadeAt run n := by
  cases hn : run.idx.nodes w.nodeKey with
  | none => simp only [process, hn, reduceCtorEq] at h
  | some n =>
    obtain ⟨role, f, hr, hf, hprocess⟩ := process_treated (ι := ι) n
    rw [hprocess run work w hn] at h
    cases hf with
    | choice =>
      change choiceSplit run work n = _ at h
      revert h
      fun_cases choiceSplit run work n <;> rintro ⟨⟩
      · cases hd
      next edges report hch =>
        cases report with
        | false => cases hd
        | true => exact ⟨n, rfl, hr, edges, hch, mem_singleton.mp hd⟩
    | raises => cases h
    | _ =>
      cases h
      cases hd

theorem loop_made (h : loop run fuel work = .ok (work', made)) :
    ∀ d ∈ made, ∃ k n, run.idx.nodes k = some n ∧ d.MadeAt run n := by
  refine loop_induction (P := fun _ _ made => ∀ d ∈ made, ∃ k n, run.idx.nodes k = some n ∧
    d.MadeAt run n) (fun _ _ => nofun) ?_ h
  intro _ _ w _ _ _ _ hp ih
  refine forall_mem_append.mpr ⟨fun d hd => ?_, ih⟩
  obtain ⟨n, hn, hmade⟩ := process_made hp hd
  exact ⟨w.nodeKey, n, hn, hmade⟩

/-- **Every reported decision is what a choice split of the graph selected.** -/
theorem Call.decisions_made (h : c.outcome g = .ok r) (hd : d ∈ r.decisions) :
    ∃ n, g.node? n.key = some n ∧ d.MadeAt (g.run c.context c.decisions) n := by
  obtain ⟨work, made, hfinish, hres⟩ := Call.outcome_ok h
  obtain ⟨-, work₀, henter, hloop, -⟩ := Call.finish_ok hfinish
  rw [result_ok hres] at hd
  obtain ⟨k, n, hn, hmade⟩ := loop_made hloop d hd
  obtain rfl : n.key = k := DerivedGraph.node?_key hn
  exact ⟨n, hn, hmade⟩

/-! ## Carrying out the mutations -/

/-- The loaded tokens after the mutations: consumed ones are gone, parked ones wait. -/
def kept [DecidableEq ι] (tokens : List (Token ι)) (r : EngineResult ι) : List (Token ι) :=
  (tokens.filter (·.id ∉ r.consumed)).map fun t =>
    if t.id ∈ r.parked then { t with state := .waiting } else t

/-- The rows made for the spawned pairs, under the given ids. -/
def spawnedTokens (ids : List ι) (pairs : List (String × Option String)) : List (Token ι) :=
  zipWith (fun id p => ⟨id, p.1, .waiting, p.2⟩) ids pairs

/-- The token list after the mutations, new rows at the end. -/
def applyResult [DecidableEq ι] (ids : List ι) (tokens : List (Token ι)) (r : EngineResult ι) :
    List (Token ι) :=
  kept tokens r ++ spawnedTokens ids r.spawned

def Token.place (t : Token ι) : String × Option String × TokenState :=
  (t.nodeKey, t.inboundEdgeKey, t.state)

/-- Where a work entry is and in which state. -/
def W.place (w : W ι) : String × Option String × TokenState := (w.nodeKey, w.inbound, w.state)

theorem mem_ids (q : W ι → Prop) [DecidablePred q] (h : Forall₂ Loaded tokens old) :
    old.filterMap (fun w => if q w then w.id else none) ⊆ tokens.map (·.id) := by
  intro i hi
  obtain ⟨w, hw, hqi⟩ := mem_filterMap.mp hi
  obtain ⟨t, ht, htw⟩ := Rows.exists_of_forall₂ h hw
  split_ifs at hqi
  rw [htw.id, Option.some.injEq] at hqi
  exact mem_map.mpr ⟨t, ht, hqi⟩

theorem exists_entry (h : tokens.map Token.place = (work.filter W.isLive).map W.place)
    (ht : t ∈ tokens) :
    ∃ w ∈ work, w.isLive = true ∧ w.nodeKey = t.nodeKey ∧ w.inbound = t.inboundEdgeKey ∧
      w.state = t.state := by
  obtain ⟨w, hw, heq⟩ := mem_map.mp (h ▸ mem_map_of_mem ht)
  obtain ⟨hw, hlive⟩ := mem_filter.mp hw
  simp only [W.place, Token.place, Prod.mk.injEq] at heq
  exact ⟨w, hw, hlive, heq⟩

theorem mem_ids_iff (q : W ι → Prop) [DecidablePred q] (h : Forall₂ Loaded tokens old)
    (hnodup : (tokens.map (·.id)).Nodup) :
    Forall₂ (fun t w => t.id ∈ old.filterMap (fun w => if q w then w.id else none) ↔ q w)
      tokens old := by
  induction h with
  | nil => exact .nil
  | @cons t w ts ws htw hts ih =>
    rw [map_cons, nodup_cons] at hnodup
    have hids : ∀ i, i ∈ (w :: ws).filterMap (fun w => if q w then w.id else none) ↔
        (q w ∧ i = t.id) ∨ i ∈ ws.filterMap (fun w => if q w then w.id else none) := by
      intro i
      by_cases hq : q w
      · simp [hq, htw.id]
      · simp [hq]
    refine .cons ?_ ?_
    · rw [hids]
      constructor
      · rintro (⟨hq, -⟩ | hmem)
        · exact hq
        · exact absurd (mem_ids q hts hmem) hnodup.1
      · exact fun hq => .inl ⟨hq, rfl⟩
    · have hne : ∀ u ∈ ts, u.id ≠ t.id := fun u hu heq =>
        hnodup.1 (mem_map.mpr ⟨u, hu, heq⟩)
      refine ((forall₂_and_left ts ws).mpr ⟨hne, ih hnodup.2⟩).imp ?_
      rintro u v ⟨hu, huv⟩
      rw [hids, ← huv]
      simp [hu]

theorem filterMap_ids (q : W ι → Prop) [DecidablePred q] (hnew : ∀ w ∈ new, Fresh g w) :
    (old ++ new).filterMap (fun w => if w.origin = .existing ∧ q w then w.id else none)
      = old.filterMap fun w => if w.origin = .existing ∧ q w then w.id else none := by
  rw [filterMap_append, append_right_eq_self, filterMap_eq_nil_iff]
  intro w hw
  simp [(hnew w hw).origin]

theorem map_place_kept [DecidableEq ι]
    (h : Forall₂ (fun t w => Loaded t w ∧ (t.id ∈ r.consumed ↔ w.state = .consumed) ∧
      (t.id ∈ r.parked ↔ w.state = .waiting ∧ t.state = .active)) tokens old)
    (hquiet : ∀ w ∈ old, w.isActive = false) :
    (kept tokens r).map Token.place = (old.filter W.isLive).map W.place := by
  unfold kept
  induction h with
  | nil => rfl
  | @cons t w ts ws htw _ ih =>
    obtain ⟨hl, hc, hp⟩ := htw
    have ih := ih fun v hv => hquiet v (mem_cons_of_mem _ hv)
    cases hs : w.state with
    | active =>
      have hact := hquiet w mem_cons_self
      simp [W.isActive, hs] at hact
    | consumed =>
      have hdead : w.isLive = false := by simp [W.isLive, hs]
      simpa [hc.mpr hs, hdead] using ih
    | waiting =>
      have hlive : w.isLive = true := by simp [W.isLive, hs]
      have hkeep : t.id ∉ r.consumed := fun hmem => by simpa [hs] using hc.mp hmem
      have hplace : (if t.id ∈ r.parked then { t with state := .waiting } else t).place
          = w.place := by
        by_cases hpark : t.id ∈ r.parked
        · simp [hpark, Token.place, W.place, hl.nodeKey, hl.inbound, hs]
        · have hwait : t.state = .waiting := by
            cases ht : t.state with
            | active => exact absurd (hp.mpr ⟨hs, ht⟩) hpark
            | consumed => exact absurd ht hl.live
            | waiting => rfl
          simp [hpark, Token.place, W.place, hl.nodeKey, hl.inbound, hs, hwait]
      rw [filter_cons_of_pos (by simpa using hkeep), filter_cons_of_pos hlive]
      simp only [map_cons, hplace]
      rw [ih]

theorem map_place_spawnedTokens (hnew : ∀ w ∈ new, Fresh g w)
    (hquiet : ∀ w ∈ new, w.isActive = false) (hids : ids.length = (spawnedPairs new).length) :
    (spawnedTokens ids (spawnedPairs new)).map Token.place = (new.filter W.isLive).map W.place := by
  have hpairs : (spawnedPairs new).map (fun p => (p.1, p.2, TokenState.waiting))
      = (new.filter W.isLive).map W.place := by
    clear hids
    induction new with
    | nil => rfl
    | cons w new ih =>
      have hrest := ih (fun v hv => hnew v (mem_cons_of_mem _ hv)) fun v hv =>
        hquiet v (mem_cons_of_mem _ hv)
      have horigin := (hnew w mem_cons_self).origin
      have hact := hquiet w mem_cons_self
      rw [spawnedPairs] at hrest ⊢
      cases hs : w.state with
      | active => simp [W.isActive, hs] at hact
      | consumed => simpa [horigin, hs, W.isLive] using hrest
      | waiting => simpa [horigin, hs, W.isLive, W.place] using hrest
  rw [← hpairs]
  generalize spawnedPairs new = pairs at hids
  clear hpairs
  induction pairs generalizing ids with
  | nil =>
    rw [length_eq_zero_iff.mp hids]
    rfl
  | cons p pairs ih =>
    cases ids with
    | nil => simp at hids
    | cons i ids =>
      have := ih (by simpa using hids)
      simpa [spawnedTokens, Token.place] using this

/-- **Carrying out the mutations yields the live entries**, in the same order. -/
theorem map_place_applyResult [DecidableEq ι] (hold : Forall₂ Loaded tokens old)
    (hnew : ∀ w ∈ new, Fresh g w) (hquiet : ∀ w ∈ old ++ new, w.isActive = false)
    (hnodup : (tokens.map (·.id)).Nodup) (hc : r.consumed = consumedIds (old ++ new))
    (hp : r.parked = parkedIds (old ++ new)) (hs : r.spawned = spawnedPairs (old ++ new))
    (hids : ids.length = r.spawned.length) :
    (applyResult ids tokens r).map Token.place = ((old ++ new).filter W.isLive).map W.place := by
  have hcons : r.consumed = old.filterMap fun w =>
      if w.origin = .existing ∧ w.state = .consumed then w.id else none := by
    rw [hc, consumedIds, filterMap_ids _ hnew]
  have hpark : r.parked = old.filterMap fun w =>
      if w.origin = .existing ∧ w.state = .waiting ∧ w.wasActive then w.id else none := by
    rw [hp, parkedIds, filterMap_ids _ hnew]
  have hspawn : r.spawned = spawnedPairs new := by
    rw [hs, spawnedPairs, filterMap_append]
    have hnil : old.filterMap (fun w => if w.origin = .spawned ∧ w.state = .waiting
        then some (w.nodeKey, w.inbound) else none) = [] := by
      rw [filterMap_eq_nil_iff]
      intro w hw
      obtain ⟨t, -, htw⟩ := Rows.exists_of_forall₂ hold hw
      simp [htw.origin]
    rw [hnil, nil_append, spawnedPairs]
  have hmc := mem_ids_iff (fun w => w.origin = .existing ∧ w.state = .consumed) hold hnodup
  have hmp := mem_ids_iff (fun w => w.origin = .existing ∧ w.state = .waiting ∧ w.wasActive = true)
    hold hnodup
  rw [← hcons] at hmc
  rw [← hpark] at hmp
  rw [applyResult, map_append, filter_append, map_append]
  congr 1
  · refine map_place_kept ?_ fun w hw => hquiet w (mem_append_left _ hw)
    refine Forall₂.mp ?_ (hold.mp (fun _ _ hl hc => And.intro hl hc) hmc) hmp
    rintro t w ⟨hl, hc⟩ hp
    refine ⟨hl, ?_, ?_⟩
    · simpa [hl.origin] using hc
    · simpa [hl.origin, hl.wasActive] using hp
  · rw [hspawn] at hids ⊢
    exact map_place_spawnedTokens hnew (fun w hw => hquiet w (mem_append_right _ hw)) hids

theorem Encodes.reported_ids [DecidableEq ι] (h : Encodes g tokens work)
    (hnodup : (tokens.map (·.id)).Nodup) :
    consumedIds work ⊆ tokens.map (·.id) ∧ parkedIds work ⊆ tokens.map (·.id) ∧
      (consumedIds work).Disjoint (parkedIds work) := by
  obtain ⟨old, new, rfl, hold, hnew⟩ := h
  have hmc := mem_ids_iff (fun w => w.origin = .existing ∧ w.state = .consumed) hold hnodup
  have hmp := mem_ids_iff (fun w => w.origin = .existing ∧ w.state = .waiting ∧ w.wasActive = true)
    hold hnodup
  rw [consumedIds, parkedIds, filterMap_ids _ hnew, filterMap_ids _ hnew]
  refine ⟨mem_ids _ hold, mem_ids _ hold, fun i hc hp => ?_⟩
  obtain ⟨t, ht, rfl⟩ := mem_map.mp (mem_ids _ hold hc)
  obtain ⟨w, -, hwc, hwp⟩ :=
    Rows.exists_of_forall₂ (hmc.mp (fun _ _ h h' => And.intro h h') hmp).flip ht
  have h1 := (hwc.mp hc).2
  rw [(hwp.mp hp).2.1] at h1
  cases h1

/-- Every new token stands at the end of its edge. -/
theorem Encodes.spawned_edges (h : Encodes g tokens work) :
    ∀ p ∈ spawnedPairs work, ∃ e ∈ g.edges, p = (e.toKey, some e.key) := by
  obtain ⟨old, new, rfl, hold, hnew⟩ := h
  intro p hp
  obtain ⟨w, hw, hwp⟩ := mem_filterMap.mp hp
  split_ifs at hwp with hq
  rcases mem_append.mp hw with hw | hw
  · obtain ⟨t, -, htw⟩ := Rows.exists_of_forall₂ hold hw
    rw [htw.origin] at hq
    cases hq.1
  · obtain ⟨e, he, hk, hi⟩ := (hnew w hw).edge
    exact ⟨e, he, by rw [← Option.some.inj hwp, hk, hi]⟩

/-- What an invocation returns, read against the work list with which it ended. -/
theorem Call.outcome_spec [DecidableEq ι] (hnodup : (c.tokens.map (·.id)).Nodup)
    (h : c.outcome g = .ok r) (hids : ids.length = r.spawned.length) :
    ∃ work, c.finish g = .ok (work, r.decisions) ∧
      Encodes g c.tokens work ∧ (∀ w ∈ work, w.isActive = false) ∧
      r = ⟨consumedIds work, parkedIds work, spawnedPairs work, r.decisions,
        !work.any W.isLive⟩ ∧
      (applyResult ids c.tokens r).map Token.place = (work.filter W.isLive).map W.place := by
  obtain ⟨work, made, hfinish, hres⟩ := Call.outcome_ok h
  have hr := result_ok hres
  obtain ⟨henc, hquiet⟩ := Call.finish_encodes hfinish
  refine ⟨work, by rw [hfinish, hr], henc, hquiet, by rw [hr], ?_⟩
  obtain ⟨old, new, rfl, hold, hnew⟩ := henc
  exact map_place_applyResult hold hnew hquiet hnodup (by rw [hr]) (by rw [hr]) (by rw [hr]) hids

/-- **A resumption consumes the first token waiting at its target.** -/
theorem Call.target_consumed (h : c.outcome g = .ok r) (hk : c.target = some k) :
    ∃ t, c.tokens.find? (fun t => t.nodeKey = k && t.state = .waiting) = some t ∧
      t.id ∈ r.consumed := by
  obtain ⟨work, made, hfinish, hres⟩ := Call.outcome_ok h
  obtain ⟨hclosed, work₀, henter, hloop, loaded, hload, htarget⟩ := Call.finish_ok hfinish
  simp only [hk] at htarget
  obtain ⟨w, hfind, rfl⟩ := resumeWork_ok htarget
  obtain ⟨rest, new, rfl, hrest⟩ := loop_restated rfl hclosed hloop
  rw [eq_map_entry hload, find?_map] at hfind
  obtain ⟨t, ht, rfl⟩ := Option.map_eq_some_iff.mp hfind
  refine ⟨t, ht, ?_⟩
  have hmem : { t.entry with state := .consumed } ∈
      spawnOn (setFirst (waitingAt k) .consumed loaded) (g.index.out k) := by
    rw [eq_map_entry hload]
    exact mem_append_left _ (mem_setFirst (by rw [find?_map, ht]; rfl))
  obtain ⟨w, hw, heq, -, hdead⟩ := Rows.exists_of_forall₂ hrest.flip hmem
  rw [result_ok hres, consumedIds]
  refine mem_filterMap.mpr ⟨w, mem_append_left _ hw, ?_⟩
  rw [if_pos ⟨by rw [heq]; rfl, hdead rfl⟩, heq]
  rfl

theorem Call.reported_ids [DecidableEq ι] (hnodup : (c.tokens.map (·.id)).Nodup)
    (h : c.outcome g = .ok r) :
    r.consumed ⊆ c.tokens.map (·.id) ∧ r.parked ⊆ c.tokens.map (·.id) ∧
      r.consumed.Disjoint r.parked := by
  obtain ⟨work, made, hfinish, hres⟩ := Call.outcome_ok h
  rw [result_ok hres]
  exact (Call.finish_encodes hfinish).1.reported_ids hnodup

/-- The rows an invocation makes stand at the ends of their edges. -/
theorem Call.spawned_edges (h : c.outcome g = .ok r) :
    ∀ p ∈ r.spawned, ∃ e ∈ g.edges, p = (e.toKey, some e.key) := by
  obtain ⟨work, made, hfinish, hres⟩ := Call.outcome_ok h
  rw [result_ok hres]
  exact (Call.finish_encodes hfinish).1.spawned_edges

theorem advance_of_waiting (hc : g.Closed) (hwait : ∀ t ∈ tokens, t.state = .waiting)
    (context : Context) (decisions : Mapping (List String)) :
    advance g tokens context decisions = .ok ⟨[], [], [], [], tokens.isEmpty⟩ := by
  have hrun : (mkRun g context decisions : Except (EngineError ι) Run)
      = .ok (g.run context decisions) := mkRun_eq_ok.mpr ⟨hc, rfl⟩
  have hload := mapM_mkExisting fun t ht => by rw [hwait t ht]; decide
  generalize hwork : tokens.map Token.entry = work at hload
  have hall : ∀ w ∈ work, w.origin = .existing ∧ w.state = .waiting ∧ w.wasActive = false :=
    hwork ▸ forall_mem_map.mpr fun t ht => by simp [Token.entry, hwait t ht]
  have hquiet : ∀ w ∈ work, w.isActive = false := fun w hw => by
    simp [W.isActive, (hall w hw).2.1]
  have hfinish : Call.finish g ⟨tokens, none, context, decisions⟩ = .ok (work, []) := by
    simp only [Call.finish, Call.enter, hrun, hload, bind, Except.bind]
    exact loop_none (find?_eq_none.mpr fun w hw => by simp [hquiet w hw])
  simp only [advance, Call.outcome, hfinish, bind, Except.bind]
  rw [result_of_quiet hquiet]
  have hcons : consumedIds work = [] := filterMap_eq_nil_iff.mpr fun w hw => by
    simp [(hall w hw).2.1]
  have hpark : parkedIds work = [] := filterMap_eq_nil_iff.mpr fun w hw => by
    simp [(hall w hw).2.2]
  have hspawn : spawnedPairs work = [] := filterMap_eq_nil_iff.mpr fun w hw => by
    simp [(hall w hw).1]
  have hdone : (!work.any W.isLive) = tokens.isEmpty := by
    rw [← hwork]
    cases tokens <;> simp [W.isLive, Token.entry, hwait]
  rw [hcons, hpark, hspawn, hdone]

/-- **A crash after an invocation loses nothing.**  Applying what the engine returned
gives the tokens it ended with; the consumed and the parked ids are disjoint sets of
loaded ids; every new token stands at the end of its edge; the instance is completed
exactly when no token is left; and running the engine again changes nothing. -/
theorem failover_idempotent [DecidableEq ι] (g : DerivedGraph) (c : Call ι)
    (r : EngineResult ι) (ids : List ι)
    (hdistinct : (c.tokens.map (·.id)).Nodup) (h : c.outcome g = .ok r)
    (hids : ids.length = r.spawned.length) : (∃ work, c.finish g = .ok (work, r.decisions) ∧
      (applyResult ids c.tokens r).map Token.place = (work.filter W.isLive).map W.place) ∧
    (r.consumed ⊆ c.tokens.map (·.id) ∧ r.parked ⊆ c.tokens.map (·.id) ∧
      r.consumed.Disjoint r.parked) ∧ (∀ p ∈ r.spawned, ∃ e ∈ g.edges, p = (e.toKey, some e.key)) ∧
    (r.completed = true ↔ applyResult ids c.tokens r = []) ∧
    ∀ context decisions, advance g (applyResult ids c.tokens r) context decisions
      = .ok ⟨[], [], [], [], r.completed⟩ := by
  obtain ⟨work, hfinish, henc, hquiet, hr, hplace⟩ := Call.outcome_spec hdistinct h hids
  have hwait : ∀ t ∈ applyResult ids c.tokens r, t.state = .waiting := by
    intro t ht
    obtain ⟨w, hw, hlive, -, -, hstate⟩ := exists_entry hplace ht
    exact hstate.symm.trans (W.state_eq_waiting hlive (hquiet w hw))
  have hempty : (applyResult ids c.tokens r).isEmpty = !work.any W.isLive := by
    have hlen := congrArg isEmpty hplace
    rw [isEmpty_map, isEmpty_map] at hlen
    rw [hlen, Bool.eq_iff_iff]
    simp
  have hcompleted : r.completed = (applyResult ids c.tokens r).isEmpty := by
    rw [hempty, hr]
  obtain ⟨hclosed, -⟩ := Call.finish_ok hfinish
  refine ⟨⟨work, hfinish, hplace⟩, ?_, ?_, ?_, ?_⟩
  · rw [hr]
    exact henc.reported_ids hdistinct
  · rw [hr]
    exact henc.spawned_edges
  · rw [hcompleted, List.isEmpty_iff]
  · intro context decisions
    rw [hcompleted]
    exact advance_of_waiting hclosed hwait context decisions

/-- A workflow that begins with two manual steps behind an AND split. -/
def fork (nodes : List GraphNode) (edges : List GraphEdge) : Definition where
  start := "e0"
  nodes := [.event "e0", .connector "as" .and .split, .function "f1" .manual,
    .function "f2" .manual] ++ nodes
  edges := [.plain "a" "e0" "as", .plain "b" "as" "f1", .plain "c" "as" "f2"] ++ edges

/-- The two steps lead to an AND join. -/
def diamond : Definition :=
  fork [.connector "aj" .and .join, .event "e1"]
    [.plain "d" "f1" "aj", .plain "e" "f2" "aj", .plain "f" "aj" "e1"]

def diamondStart : Call ℕ := { tokens := [⟨1, "e0", .active, none⟩] }

/-- What it returns. -/
def diamondStarted : EngineResult ℕ :=
  ⟨[1], [], [("f1", some "b"), ("f2", some "c")], [], false⟩

/-- The start of the diamond, carried out and run again. -/
theorem failover_idempotent_diamond :
    advance diamond.flatten (applyResult [2, 3] diamondStart.tokens diamondStarted)
      (fun _ => none) (fun _ => none) = .ok ⟨[], [], [], [], diamondStarted.completed⟩ :=
  (failover_idempotent diamond.flatten diamondStart diamondStarted [2, 3] (by decide)
    (by decide) rfl).2.2.2.2 _ _

end BbzPlatform.Workflow
