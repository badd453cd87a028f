import BbzPlatform.Workflow.Publish
import BbzPlatform.Workflow.Runs

/-!
# OR joins in a run

An OR join fires when a token arrives and no other live token can still reach it.
On an acyclic graph it fires at most once in a whole run.  Its test is only made
when a token arrives, though.  When the last token that could have come turns
another way at a choice split, nothing looks at the join again, and what waits
there waits for ever.  `strands` is that turn, stated with the tests of the code on
the work list before it.
-/

namespace BbzPlatform.Workflow

open RuleDsl TokenNet List

variable {ι : Type} [DecidableEq ι] {g : DerivedGraph} {events : List (Event ι)}
  {tokens : List (Token ι)} {j : String}

/-! ## A workflow with an OR join -/

/-- Two parallel steps, of which the second may leave the OR join aside: behind it an
XOR split goes to the join if the condition is true, and to an end otherwise. -/
def detourIf (condition : List (String × Json)) : Definition where
  start := "e0"
  nodes := [.event "e0", .connector "os" .or .split, .function "f1" .manual,
    .function "f2" .manual, .connector "xs" .xor .split, .connector "oj" .or .join,
    .event "e1", .event "e2"]
  edges := [.plain "a" "e0" "os",
    { key := "b", fromKey := "os", toKey := "f1", branch := some "l" },
    { key := "c", fromKey := "os", toKey := "f2", branch := some "r" }, .plain "d" "f1" "oj",
    .plain "e" "f2" "xs",
    { key := "f", fromKey := "xs", toKey := "oj", condition := some condition },
    .plain "g" "xs" "e2", .plain "h" "oj" "e1"]

/-- The second step leads to the join if the operator has confirmed. -/
def detour : Definition :=
  detourIf [("op", .str "eq"),
    ("args", .arr [.obj [("field", .str "operator_confirmed")], .bool true])]

/-- The context of the service before an operator confirmed anything. -/
def unconfirmed : Context := fun k => if k = "operator_confirmed" then some (.bool false) else none

/-- The context after the operator confirmed. -/
def confirmed : Context := fun k => if k = "operator_confirmed" then some (.bool true) else none

theorem detour_accepted : Accepted .plain none detour.toJson detour.flatten :=
  accepted_toJson (by decide) (by rfl) (by rfl)

theorem detour_acyclic : detour.flatten.Acyclic :=
  DerivedGraph.acyclic_of_rank (["e0", "os", "f1", "f2", "xs", "oj", "e1", "e2"].idxOf ·)
    (by decide)

theorem detour_isOrJoin : detour.flatten.IsOrJoin "oj" :=
  DerivedGraph.isOrJoin_iff.mpr (by decide)

/-- The start of a run. -/
def startCall (context : Context) : Event ℕ :=
  .call ⟨[⟨1, "e0", .active, none⟩], none, context, fun _ => none⟩

/-- The tokens of two parallel steps. -/
def bothSteps : List (Token ℕ) :=
  [⟨2, "f1", .waiting, some "b"⟩, ⟨3, "f2", .waiting, some "c"⟩]

theorem reached_bothSteps {context : Context} (decisions : List DecisionMade)
    (hstart : g.start = "e0")
    (h : Call.outcome g ⟨[⟨1, "e0", .active, none⟩], none, context, fun _ => none⟩
      = .ok ⟨[1], [], [("f1", some "b"), ("f2", some "c")], decisions, false⟩) :
    Reached g [startCall context] bothSteps := by
  have h₀ : Reached g [] [(⟨1, "e0", .active, none⟩ : Token ℕ)] := hstart ▸ .start 1
  exact h₀.invoke none context (fun _ => none) _ [2, 3] (by simp) h
    ⟨by simp, by simp, by simp⟩

theorem detour_started : Reached detour.flatten [startCall unconfirmed] bothSteps :=
  reached_bothSteps [⟨"os", ["b", "c"], true⟩] rfl (by decide)

/-- The events of a start of the detour and a completion of its first step. -/
def detourEvents (context : Context) : List (Event ℕ) :=
  [startCall context, .call ⟨bothSteps, some "f1", context, fun _ => none⟩]

/-- The first step parks its token at the OR join, because the second can still come. -/
theorem detour_half : Reached detour.flatten (detourEvents unconfirmed)
    [⟨3, "f2", .waiting, some "c"⟩, ⟨4, "oj", .waiting, some "d"⟩] := by
  exact detour_started.invoke (some "f1") unconfirmed (fun _ => none)
    ⟨[2], [], [("oj", some "d")], [], false⟩ [4]
    (by decide) (by decide) (by decide)

/-! ## OR joins fire once -/

omit [DecidableEq ι] in
theorem count_passages (g : DerivedGraph) (events : List (Event ι)) (j : String) :
    (passes (events.flatMap (Event.passages g))).count j
      = ((events.flatMap (Event.steps g)).filter
          fun i => i.nodeKey = j ∧ i.taken ≠ []).length := by
  have hcount : ∀ is : List (Iteration ι),
      (passes (is.map Iteration.passage)).count j
        = (is.filter fun i => i.nodeKey = j ∧ i.taken ≠ []).length := by
    intro is
    induction is with
    | nil => rfl
    | cons i is ih =>
      rw [map_cons, passes_cons, Multiset.count_add, ih, filter_cons]
      by_cases h0 : i.taken = []
      · simp [Iteration.passage, h0]
      · by_cases hj : i.nodeKey = j
        · simp [Iteration.passage, h0, hj, Nat.add_comm]
        · simp [Iteration.passage, h0, hj, Ne.symm hj]
  induction events with
  | nil => rfl
  | cons e events ih =>
    rw [flatMap_cons, flatMap_cons, passes_append, Multiset.count_add, ih,
      filter_append, length_append]
    congr 1
    cases e with
    | call c => exact hcount _
    | decide k => simp [Event.passages, Event.steps, passes_single]

theorem Reached.steps_sound (h : Reached g events tokens) :
    ∀ i ∈ events.flatMap (Event.steps g),
      RunStep g (live i.before) i.passage (live i.after) := by
  induction h with
  | start id => simp
  | @call events c r ids tokens h hfun hr hids hperm ih =>
    rw [flatMap_append, flatMap_singleton]
    refine forall_mem_append.mpr ⟨ih, fun i hi => ?_⟩
    obtain ⟨work, hfinish, -⟩ := Call.outcome_spec h.nodup hr hids.length
    exact ⟨c.selection g, fun _ _ => selection_subset, Call.steps_sound hfun hfinish i hi⟩
  | decide h _ _ ih =>
    rw [flatMap_append, flatMap_singleton]
    exact forall_mem_append.mpr ⟨ih, fun i hi => by cases hi⟩

/-- **An OR join of an acyclic graph fires at most once in a run**, and when it fires
no live token is left at it or able to reach it. -/
theorem or_join_fires_once (hac : g.Acyclic) (hrun : Reached g events tokens) (hj : g.IsOrJoin j) :
    ((events.flatMap (Event.steps g)).filter
      fun i => i.nodeKey = j ∧ i.taken ≠ []).length ≤ 1 ∧
    ∀ i ∈ events.flatMap (Event.steps g), i.nodeKey = j → i.taken ≠ [] →
      ∀ w ∈ i.after, w.isLive = true → w.nodeKey ≠ j ∧ ¬ g.Reaches w.nodeKey j := by
  constructor
  · rw [← count_passages]
    have honce := hrun.trace.orJoin_once (DerivedGraph.net_acyclic hac j) (fun _ h => h)
      (fun _ _ _ hs => hs) (DerivedGraph.isOrJoin_iff.mp hj)
    omega
  · rintro i hi rfl htaken w hw hlive
    obtain ⟨sel, -, hstep⟩ := hrun.steps_sound i hi
    have hclear := hstep.cleared_of_fire (DerivedGraph.net_acyclic hac _) (fun _ h => h)
      (DerivedGraph.isOrJoin_iff.mp hj) (by simpa [Iteration.passage] using htaken)
    have hno := hclear w.tok (mem_live.mpr ⟨w, hw, hlive, rfl⟩)
    simp only [Net.Leads, not_or] at hno
    exact ⟨hno.1, fun hr => hno.2 (DerivedGraph.net_reaches.mpr hr)⟩

/-- In the detour with a confirmed operator both tokens come to the join. -/
theorem or_join_fires_once_detour :
    ∃ events : List (Event ℕ), Reached detour.flatten events [] ∧
      ((events.flatMap (Event.steps detour.flatten)).filter
        fun i => i.nodeKey = "oj" ∧ i.taken ≠ []).length ≤ 1 := by
  have h := detour_half.invoke (some "f2") confirmed (fun _ => none)
    ⟨[3, 4], [], [], [⟨"xs", ["f"], true⟩], true⟩ []
    (by decide) (by decide) (by decide)
  exact ⟨_, h, (or_join_fires_once detour_acyclic h detour_isOrJoin).1⟩

/-! ## OR joins that are never looked at again -/

/-- The first active token stands at a choice split, a token waits at `j`, this token is
the last that could look at `j` or come to it, and no branch selected leads there. -/
def strands (run : Run) (work : List (W ι)) (j : String) : Bool :=
  match work.find? W.isActive with
  | none => false
  | some w =>
    match run.idx.nodes w.nodeKey with
    | none => false
    | some node =>
      match choose run node with
      | .ok (some (edges, _)) =>
        let others := setFirst W.isActive .consumed work
        node.role = some .choice && work.any (waitingAt j) &&
          j ∈ run.idx.reachable w.nodeKey &&
          !others.any (fun x => x.nodeKey = j && x.isActive) && !stillComing run others j &&
          edges.all fun e => e.toKey ≠ j && j ∉ run.idx.reachable e.toKey
      | _ => false

section

omit [DecidableEq ι]

variable {run : Run} {work : List (W ι)} {w : W ι}

/-- A selection that strands a join in the token game does so in the code's terms. -/
theorem strands_of_strands (hidx : run.idx = g.index) (hc : g.Closed)
    (hw : work.find? W.isActive = some w) {arcs : List (String × String)}
    (hrole : g.net.role w.nodeKey = some .choice) (hsel : run.selection w.nodeKey = some arcs)
    (h : Strands g.net (live work) w.tok arcs j) : strands run work j = true := by
  obtain ⟨-, ⟨t, ht, htj, hta⟩, hreach, hnoact, hnocome, harcs⟩ := h
  have herase := live_setFirst_consumed (fun _ => W.isLive_of_isActive) hw
  obtain ⟨node, edges, report, hn, hch, rfl⟩ := Run.selection_eq_some hsel
  simp only [strands, hw, hn, hch, Bool.and_eq_true, decide_eq_true_eq, Bool.not_eq_true',
    all_eq_true, any_eq_true]
  refine ⟨⟨⟨⟨⟨?_, ?_⟩, ?_⟩, ?_⟩, ?_⟩, ?_⟩
  · rw [← (role_of_node hidx hn).2]
    exact hrole
  · obtain ⟨x, hx, hlive, rfl⟩ := mem_live.mp ht
    exact ⟨x, hx, waitingAt_iff.mpr ⟨htj, W.state_eq_waiting hlive hta⟩⟩
  · exact (reaches_iff hidx hc _ _).mp hreach
  · rw [any_eq_false]
    intro x hx hxj
    simp only [Bool.and_eq_true, decide_eq_true_eq] at hxj
    refine hnoact ⟨x.tok, ?_, hxj.1, hxj.2⟩
    rw [← herase]
    exact mem_live.mpr ⟨x, hx, W.isLive_of_isActive hxj.2, rfl⟩
  · rw [← herase, coming_iff hidx hc] at hnocome
    simpa using hnocome
  · intro e he
    have hlead := harcs e.arc (mem_map_of_mem he)
    simp only [Net.Leads, not_or] at hlead
    refine ⟨hlead.1, fun h => hlead.2 ?_⟩
    rw [reaches_iff hidx hc]
    exact h

theorem process_fed {work' : List (W ι)} {made : List DecisionMade} (hidx : run.idx = g.index)
    (hc : g.Closed) (hw : work.find? W.isActive = some w)
    (hp : process run work w = .ok (work', made))
    (hkeep : ∀ j, g.IsOrJoin j → strands run work j = false)
    (hfed : Fed g.net (live work)) : Fed g.net (live work') := by
  have hstep : GameStep g run.selection (live work) (passageOf w work work') (live work') :=
    .move (process_move hidx hc hw hp)
  refine hstep.fed (fun _ h => h) ?_ hfed
  intro t ht htn hta hrole arcs hsel j hstr
  have hwmem : w.tok ∈ live work := mem_live.mpr
    ⟨w, mem_of_find?_eq_some hw, W.isLive_of_isActive (find?_some hw), rfl⟩
  -- another token at the split is a feeder too
  have htw : w.tok = t := by
    obtain ⟨hj, -, hreach, -, hnocome, -⟩ := hstr
    have htn' : w.tok.node = t.node := htn.symm
    by_contra hne
    refine hnocome ⟨w.tok, (Multiset.mem_erase_of_ne hne).mpr hwmem, ?_, htn' ▸ hreach⟩
    rintro rfl
    rw [htn', hrole] at hj
    cases hj
  subst htw
  have hno := hkeep j (DerivedGraph.isOrJoin_iff.mpr hstr.1)
  rw [strands_of_strands hidx hc hw hrole hsel hstr] at hno
  cases hno

/-- The run strands no OR join: before no iteration of its invocations does the
selection at hand take the last feeder of a waiting OR join elsewhere. -/
def NeverStrands (g : DerivedGraph) (events : List (Event ι)) : Prop :=
  ∀ c, .call c ∈ events → ∀ i ∈ c.loopIterations g, ∀ j, g.IsOrJoin j →
    strands (g.run c.context c.decisions) i.before j = false

theorem Call.fed {c : Call ι} {made : List DecisionMade} (hfun : ∀ k ∈ c.target, g.IsFunction k)
    (h : c.finish g = .ok (work, made)) (hkeep : ∀ i ∈ c.loopIterations g, ∀ j, g.IsOrJoin j →
      strands (g.run c.context c.decisions) i.before j = false)
    (hfed : Fed g.net (marking c.tokens)) : Fed g.net (live work) := by
  obtain ⟨hclosed, work₀, henter, hloop, loaded, hload, htarget⟩ := Call.finish_ok h
  rw [← live_loaded hload] at hfed
  have hstart : Fed g.net (live work₀) := by
    cases hc : c.target with
    | none =>
      simp only [hc] at htarget
      rw [htarget]
      exact hfed
    | some k =>
      simp only [hc] at htarget
      -- finishing a function selects nothing
      refine (resume_step rfl (hfun k hc) htarget (fun _ => none)).fed (fun _ h => h) ?_ hfed
      intro _ _ _ _ _ _ hsel
      cases hsel
  simp only [Call.loopIterations, henter] at hkeep
  refine loop_induction (P := fun fuel work₁ _ =>
    (∀ i ∈ loopSteps (g.run c.context c.decisions) fuel
    work₁, ∀ j, g.IsOrJoin j → strands (g.run c.context c.decisions) i.before j = false) →
    Fed g.net (live work₁) → Fed g.net (live work)) (fun _ _ _ h => h) ?_ hloop
    hkeep hstart
  intro fuel work₁ w mid made _ hw hp ih hkeep hfed
  rw [loopSteps_succ hw hp] at hkeep
  refine ih (fun i hi => hkeep i (mem_cons_of_mem _ hi)) ?_
  exact process_fed rfl hclosed hw hp (hkeep _ mem_cons_self) hfed

end

/-- A run that strands no OR join keeps them all fed. -/
theorem Reached.fed (h : Reached g events tokens) (hkeep : NeverStrands g events) :
    Fed g.net (marking tokens) := by
  induction h with
  | start id =>
    rintro j - ⟨⟨t, ht, -, hta⟩, -, -⟩
    simp only [marking, map_cons, map_nil, Multiset.coe_singleton,
      Multiset.mem_singleton] at ht
    rw [ht] at hta
    simp [Token.tok] at hta
  | @call events c r ids tokens h hfun hr hids hperm ih =>
    obtain ⟨work, hfinish, -, -, -, hplace⟩ := Call.outcome_spec h.nodup hr hids.length
    rw [← marking_perm hperm, marking_of_places hplace]
    refine Call.fed hfun hfinish (hkeep c (by simp)) (ih fun d hd => hkeep d ?_)
    exact mem_append_left _ hd
  | @decide events before after t h hw hk ih =>
    refine (wake_step hw hk).fed (fun _ h => h) ?_
      (ih fun d hd => hkeep d (mem_append_left _ hd))
    intro _ _ _ _ _ _ hsel
    cases hsel

/-- **No OR join is left waiting for nothing** in a run that strands none: in every
quiescent state, if a token waits at an OR join, a live token at another node can
still reach it. -/
theorem or_join_waits_for_a_token (hrun : Reached g events tokens)
    (hkeep : NeverStrands g events) (hquiet : ∀ t ∈ tokens, t.state = .waiting)
    (hj : g.IsOrJoin j) (hwait : ∃ t ∈ tokens, t.nodeKey = j) :
    ∃ t ∈ tokens, t.nodeKey ≠ j ∧ g.Reaches t.nodeKey j := by
  have hfed := hrun.fed hkeep j (DerivedGraph.isOrJoin_iff.mp hj)
  obtain ⟨t, ht, htj⟩ := hwait
  by_contra hno
  refine hfed ⟨⟨t.tok, mem_marking.mpr ⟨t, ht, rfl⟩, htj, by simp [Token.tok, hquiet t ht]⟩, ?_, ?_⟩
  · rintro ⟨x, hx, -, hxa⟩
    obtain ⟨u, hu, rfl⟩ := mem_marking.mp hx
    simp [Token.tok, hquiet u hu] at hxa
  · rintro ⟨x, hx, hne, hr⟩
    obtain ⟨u, hu, rfl⟩ := mem_marking.mp hx
    exact hno ⟨u, hu, hne, DerivedGraph.net_reaches.mp hr⟩

/-- While the second step of the detour is open, its token is the one the join waits for. -/
theorem or_join_waits_for_a_token_detour :
    ∃ t ∈ [(⟨3, "f2", .waiting, some "c"⟩ : Token ℕ), ⟨4, "oj", .waiting, some "d"⟩],
      t.nodeKey ≠ "oj" ∧ detour.flatten.Reaches t.nodeKey "oj" := by
  refine or_join_waits_for_a_token detour_half ?_ (by simp) detour_isOrJoin (by simp)
  intro c hc i hi j hj
  have hkey : j ∈ detour.flatten.nodes.map (·.key) := by
    obtain ⟨n, hn, -⟩ := hj
    rw [← DerivedGraph.node?_key hn]
    exact mem_map_of_mem (mem_reverse.mp (mem_of_find?_eq_some hn))
  have hcheck : ∀ e ∈ detourEvents unconfirmed, ∀ c, e = .call c →
      ∀ i ∈ c.loopIterations detour.flatten, ∀ j ∈ detour.flatten.nodes.map (·.key),
        strands (detour.flatten.run c.context c.decisions) i.before j = false := by
    simp only [detourEvents, startCall, forall_mem_cons, Event.call.injEq, not_mem_nil,
      false_imp_iff, implies_true, and_true, forall_eq']
    refine ⟨?_, ?_⟩ <;> decide
  exact hcheck _ hc c rfl i hi j hkey

/-- Without a confirmation the second step goes to the end, and the token of the first
stays at the join. -/
theorem detour_reached :
    ∃ events : List (Event ℕ), Reached detour.flatten events [⟨4, "oj", .waiting, some "d"⟩] := by
  have h := detour_half.invoke (some "f2") unconfirmed (fun _ => none)
    ⟨[3], [], [], [⟨"xs", ["g"], true⟩], false⟩ []
    (by decide) (by decide) (by decide)
  exact ⟨_, h⟩

/-- **A published workflow can leave an OR join waiting for nothing.** -/
theorem or_join_left_waiting :
    ¬ ∀ (ext : Externals) (caps : Option (List String)) (definition : Json) (g : DerivedGraph)
      (events : List (Event ℕ)) (tokens : List (Token ℕ)) (j : String),
      Accepted ext caps definition g → g.Acyclic → Reached g events tokens →
      (∀ t ∈ tokens, t.state = .waiting) → g.IsOrJoin j → (∃ t ∈ tokens, t.nodeKey = j) →
      ∃ t ∈ tokens, t.nodeKey ≠ j ∧ g.Reaches t.nodeKey j := by
  intro h
  obtain ⟨events, hrun⟩ := detour_reached
  obtain ⟨t, ht, hne, -⟩ := h .plain none detour.toJson detour.flatten events _ "oj" detour_accepted
    detour_acyclic hrun (by simp) detour_isOrJoin (by simp)
  rw [mem_singleton.mp ht] at hne
  exact hne rfl

end BbzPlatform.Workflow
