import BbzPlatform.Workflow.Stages

/-!
# No step is stuck

Results are kept per node, tokens per arrival.  Once a step has a result, a second token
that comes to its node stays there: `complete_step` returns without looking at it, and
settling skips it.  With at most one token row at a node that carries a task kind this
cannot happen, and every step can be finished, unless the transaction raises for one of
three other reasons, which the hypotheses exclude: the engine gives up, a branch condition
breaks the parser, or a timer has no valid duration.

Settling ends because every round records the result of one more node.
-/

namespace BbzPlatform.Workflow

open RuleDsl Logged List

variable {ι : Type} {ext : Externals} {env : Env ι} {g : DerivedGraph} {may : String → Prop}
  {inst inst' : Instance ι} {calls : List (Call ι)} {k : String} {row : TokenRow ι}

section Transactions

variable [LinearOrder ι]

/-- In every state an instance of the graph can pass through, an engine call fits its
budget. -/
def SettlesThroughout (ι : Type) [LinearOrder ι] (g : DerivedGraph) : Prop :=
  ∀ (calls : List (Call ι)) (inst : Instance ι), StageRun g (fun _ => True) calls inst →
    ∀ env target context, Call.Fits g ⟨inst.liveTokens, target, context, inst.decisionMap env⟩

/-- A timer of the graph that is armed now gets a date. -/
def TimersCanRun (ext : Externals) (env : Env ι) (g : DerivedGraph) : Prop :=
  ∀ n ∈ g.nodes, n.functionKind.any (·.timed) = true → ∃ due, dueAt ext env n = .ok due

omit [LinearOrder ι] in
theorem Instance.Sound.decisionsAccepted (hs : inst.Sound g) :
    DecisionsAccepted g (inst.decisionMap env) := by
  intro k chosen h
  obtain ⟨d, hfind, rfl⟩ := Option.map_eq_some_iff.mp h
  have hmem := mem_reverse.mp (mem_of_find?_eq_some hfind)
  obtain rfl : d.connectorNodeKey = k := by simpa using find?_some hfind
  exact hs.decided d ((env.scanDecisions_perm _).mem_iff.mp hmem)

/-- An engine call returns, provided that a token waits where it resumes. -/
theorem StageRun.outcome_ok (hwf : g.WellFormed) (hguards : ParsableGuards g)
    (hfit : SettlesThroughout ι g) (hrun : StageRun g (fun _ => True) calls inst)
    (env : Env ι) (target : Option String) (context : Context)
    (htarget : ∀ k ∈ target, ∃ row ∈ inst.tokens, row.nodeKey = k ∧ row.state = .waiting) :
    ∃ r, Call.outcome g ⟨inst.liveTokens, target, context, inst.decisionMap env⟩ = .ok r := by
  have hs := hrun.sound hwf
  rcases Call.returns_cases (c := ⟨inst.liveTokens, target, context, inst.decisionMap env⟩) hwf
    hguards hs.decisionsAccepted hs.placed_liveTokens (hfit calls inst hrun env target context)
    with hok | ⟨k, hk, -, hno⟩
  · exact hok
  · obtain ⟨row, hrow, hat, hwait⟩ := htarget k hk
    refine absurd hwait (hno row.token (Instance.mem_liveTokens.mpr ⟨row, hrow, ?_, rfl⟩) hat)
    simp [hwait]

/-! ## Settling ends -/

omit [LinearOrder ι] in
theorem deadline_ok (htimers : TimersCanRun ext env g) (row : TokenRow ι) :
    ∃ due, deadline ext env g row = .ok due := by
  unfold deadline
  cases hn : graphNode g row.nodeKey with
  | none => exact ⟨none, rfl⟩
  | some n =>
    simp only
    split_ifs with hk
    · obtain ⟨due, hdue⟩ := htimers n (mem_of_find?_eq_some hn)
        (Bool.and_eq_true_iff.mp hk).1
      exact ⟨some due, by simp [hdue, Except.map]⟩
    · exact ⟨none, rfl⟩

theorem armTimers_returns (htimers : TimersCanRun ext env g) (inst : Instance ι)
    (rows : List (TokenRow ι)) : ∃ inst', armTimers ext env g inst rows = .ok inst' := by
  rcases armTimers_cases ext env g inst rows with ⟨-, hok⟩ | ⟨row, err, herr, -⟩
  · exact ⟨_, hok⟩
  · obtain ⟨due, hdue⟩ := deadline_ok htimers row
    cases hdue.symm.trans herr

omit [LinearOrder ι] in
theorem stepDone_iff : inst.stepDone k = true ↔ k ∈ inst.results.map (·.nodeKey) := by
  simp [Instance.stepDone]

/-- The nodes without a result. -/
def undone (g : DerivedGraph) (inst : Instance ι) : Finset String :=
  (g.nodes.map (·.key)).toFinset.filter fun k => inst.stepDone k = false

omit [LinearOrder ι] in
/-- Recording the result of a node leaves fewer without one. -/
theorem undone_ssubset (hk : k ∈ g.nodes.map (·.key)) (hdone : inst.stepDone k = false)
    (h : inst'.results.map (·.nodeKey) = inst.results.map (·.nodeKey) ++ [k]) :
    undone g inst' ⊂ undone g inst := by
  have hstep : ∀ l, inst'.stepDone l = false ↔ inst.stepDone l = false ∧ l ≠ k := by
    intro l
    rw [← Bool.not_eq_true, ← Bool.not_eq_true, stepDone_iff, stepDone_iff, h]
    simp
  rw [Finset.ssubset_iff_of_subset]
  · exact ⟨k, by simpa [undone, hdone] using hk, by simp [undone, hstep]⟩
  · intro l hmem
    simp only [undone, Finset.mem_filter, hstep] at hmem ⊢
    exact ⟨hmem.1, hmem.2.1⟩

theorem runAuto_returns (hwf : g.WellFormed) (hguards : ParsableGuards g)
    (hfit : SettlesThroughout ι g) (hrun : StageRun g (fun _ => True) calls inst)
    {n : GraphNode} {kind : FunctionKind} (env : Env ι) (hn : graphNode g k = some n)
    (hkind : n.functionKind = some kind) (hauto : kind.auto = true)
    (hwait : ∃ row ∈ inst.tokens, row.nodeKey = k ∧ row.state = .waiting) :
    ∃ more inst' res, Returns (runAuto env g inst k n kind) more inst' ∧
      res.nodeKey = k ∧ inst'.results = inst.results ++ [res] := by
  obtain ⟨action, haction⟩ : ∃ action, outboxAction kind = .ok action := by
    cases kind <;> first | exact ⟨_, rfl⟩ | simp [FunctionKind.auto] at hauto
  have hmid : Recorded g (fun _ => True) inst k _ := .auto hn hkind hauto haction
  obtain ⟨r, hr⟩ := hrun.outcome_ok hwf hguards hfit env (some k)
    (Instance.context _ env.event) (by rintro k ⟨⟩; exact hwait)
  rw [← hmid.call] at hr
  obtain ⟨res, hres, heq⟩ := hmid.apply_eq env r
  have hlift : Returns (lift ((outboxAction kind).mapError .taskKind) : Tx ι String) [] action :=
    returns_lift.mpr ⟨rfl, by simp [haction, Except.mapError]⟩
  exact ⟨_, _, res, hlift.bind (runEngine_returns.mpr ⟨r, hr, rfl, rfl⟩), hres,
    congrArg Instance.results heq⟩

/-- **Settling ends**: every round but the last records the result of one more node. -/
theorem settleRounds_returns (hwf : g.WellFormed) (hguards : ParsableGuards g)
    (hfit : SettlesThroughout ι g) (htimers : TimersCanRun ext env g) {rounds : ℕ}
    (hrun : StageRun g (fun _ => True) calls inst) (hrounds : (undone g inst).card < rounds) :
    ∃ more inst', Returns (settleRounds ext env g rounds inst) more inst' := by
  induction rounds generalizing inst calls with
  | zero => exact absurd hrounds (Nat.not_lt_zero _)
  | succ rounds ih =>
    obtain ⟨mid, harm⟩ := armTimers_returns htimers inst (env.scan inst.waitingRows)
    have hmid := hrun.stage (armTimers_stage harm)
    have htok := armTimers_ok harm
    cases hnext : nextAuto g mid (env.scan inst.waitingRows) with
    | none => exact ⟨_, _, settleRounds_succ.mpr ⟨mid, harm, .inl ⟨hnext, rfl, rfl⟩⟩⟩
    | some k =>
      obtain ⟨hdone, ⟨n, kind, hn, hkind, hauto⟩, row, hrow, hkey⟩ := nextAuto_some hnext
      have hwait : ∃ row ∈ mid.tokens, row.nodeKey = k ∧ row.state = .waiting := by
        obtain ⟨hmem, hstate⟩ := mem_filter.mp ((env.scan_perm _).mem_iff.mp hrow)
        rw [htok]
        exact ⟨_, mem_map_of_mem hmem, hkey, by simpa using hstate⟩
      obtain ⟨ls, next, res, hdisp, rfl, hres⟩ :=
        runAuto_returns hwf hguards hfit hmid env hn hkind hauto hwait
      have hnextRun := hmid.stage (runAuto_stage hdone hn hkind hauto hdisp)
      have hknown : res.nodeKey ∈ g.nodes.map (·.key) :=
        mem_map.mpr ⟨n, mem_of_find?_eq_some hn, by simpa using find?_some hn⟩
      have hsame : undone g mid = undone g inst := by rw [htok]; rfl
      have hlt := Finset.card_lt_card (undone_ssubset hknown hdone (by rw [hres]; simp))
      obtain ⟨more, last, hlast⟩ := ih hnextRun (by rw [hsame] at hlt; omega)
      exact ⟨_, last, settleRounds_succ.mpr ⟨mid, harm, .inr ⟨_, n, kind, hnext, hn, hkind, hauto,
        ls, more, next, hdisp, hlast, rfl⟩⟩⟩

/-! ## Every step can be finished -/

/-- At every node with a task kind there is at most one token row, whatever its state. -/
def SingleTokens (g : DerivedGraph) (inst : Instance ι) : Prop :=
  ∀ a ∈ inst.tokens, ∀ b ∈ inst.tokens, a.nodeKey = b.nodeKey → kindAt g a.nodeKey ≠ none → a = b

instance (g : DerivedGraph) (inst : Instance ι) : Decidable (SingleTokens g inst) := by
  unfold SingleTokens
  infer_instance

omit [LinearOrder ι] in
theorem SingleTokens.not_done (hs : inst.Sound g) (h : SingleTokens g inst)
    (hrow : row ∈ inst.tokens) (hwait : row.state = .waiting)
    (hkind : kindAt g row.nodeKey ≠ none) : inst.stepDone row.nodeKey = false := by
  by_contra hdone
  obtain ⟨res, hres, hkey⟩ := any_eq_true.mp (Bool.eq_true_of_not_eq_false hdone)
  obtain ⟨row', hrow', hat, hdead⟩ := hs.passed res hres
  have hkey : res.nodeKey = row.nodeKey := by simpa using hkey
  have heq := h row hrow row' hrow' (by rw [hat, hkey]) hkind
  rw [← heq, hwait] at hdead
  cases hdead

theorem Stage.consumed (hs : inst.Sound g) (h : Stage g may inst calls inst')
    (hrow : row ∈ inst.tokens) (hdead : row.state = .consumed) :
    ∃ row' ∈ inst'.tokens, row'.id = row.id ∧ row'.state = .consumed := by
  cases h with
  | schedule f hf => exact ⟨_, mem_map_of_mem hrow, rfl, hdead⟩
  | @advance env r hr =>
    obtain ⟨hmem, hstate⟩ := hs.consumed_apply env rfl hr hrow (.inr hdead)
    exact ⟨_, hmem, rfl, hstate⟩
  | @finish mid env k r context hdone hmid hctx hr =>
    obtain ⟨hmem, hstate⟩ := hs.consumed_apply env
      (c := ⟨inst.liveTokens, some k, context, inst.decisionMap env⟩) rfl hr hrow (.inr hdead)
    obtain ⟨res, -, heq⟩ := hmid.apply_eq env r
    exact ⟨row.restate r, by rw [heq]; exact hmem, rfl, hstate⟩

theorem Chain.consumed (hwf : g.WellFormed) (hs : inst.Sound g) (h : Chain g may inst calls inst')
    (hrow : row ∈ inst.tokens) (hdead : row.state = .consumed) :
    ∃ row' ∈ inst'.tokens, row'.id = row.id ∧ row'.state = .consumed := by
  induction h generalizing row with
  | nil => exact ⟨row, hrow, rfl, hdead⟩
  | cons hstage _ ih =>
    obtain ⟨mid, hmid, hid, hdead⟩ := hstage.consumed hs hrow hdead
    obtain ⟨last, hlast, hid', hdead'⟩ := ih (hstage.sound hwf hs) hmid hdead
    exact ⟨last, hlast, hid'.trans hid, hdead'⟩

/-- **A waiting step can be finished**: `complete_step` returns and consumes the token. -/
theorem completeStep_finishes (hwf : g.WellFormed) (hguards : ParsableGuards g)
    (hfit : SettlesThroughout ι g) (htimers : TimersCanRun ext env g)
    (hrun : StageRun g (fun _ => True) calls inst) (hsingle : SingleTokens g inst)
    (hrow : row ∈ inst.tokens) (hwait : row.state = .waiting)
    (hkind : kindAt g row.nodeKey ≠ none) (result : Option Json) (actor : Option String) :
    ∃ more inst', Returns (completeStep ext env g inst row.nodeKey result actor) more inst' ∧
      ∃ row' ∈ inst'.tokens, row'.id = row.id ∧ row'.state = .consumed := by
  have hs := hrun.sound hwf
  have hdone := hsingle.not_done hs hrow hwait hkind
  obtain ⟨r, hr⟩ := hrun.outcome_ok hwf hguards hfit env (some row.nodeKey)
    (inst.context env.event) (by rintro k ⟨⟩; exact ⟨row, hrow, rfl, hwait⟩)
  have hmid : Recorded g (fun _ => True) inst row.nodeKey _ :=
    .operator trivial (result.getD (.obj [])) actor
  have hstage := Stage.finish hdone hmid (.inl rfl) hr
  have hcard :
      (undone g ((inst.addResult row.nodeKey (result.getD (.obj [])) actor).apply env r)).card
      < g.nodes.length + 5 := by
    have hle := (Finset.card_filter_le (g.nodes.map (·.key)).toFinset fun k =>
      Instance.stepDone ((inst.addResult row.nodeKey (result.getD (.obj [])) actor).apply env r) k
        = false).trans (toFinset_card_le _)
    rw [length_map] at hle
    exact Nat.lt_of_le_of_lt hle (by omega)
  obtain ⟨more, last, hlast⟩ :=
    settleRounds_returns hwf hguards hfit htimers (hrun.stage hstage) hcard
  have hreturns : Returns (completeStep ext env g inst row.nodeKey result actor)
      ([inst.call env (some row.nodeKey)] ++ more) last := by
    unfold completeStep
    rw [if_neg (by simp [hdone])]
    refine Returns.bind (a := r) (returns_request.mpr ⟨rfl, ?_⟩) hlast
    rw [show (inst.call env (some row.nodeKey)).outcome g = .ok r from hr]
  refine ⟨_, last, hreturns, ?_⟩
  -- the token the engine took is the only one at the node
  obtain ⟨row₁, hrow₁, hat, hcons⟩ := Instance.target_row hr
  have hsame : row = row₁ := hsingle row hrow row₁ hrow₁ hat.1.symm hkind
  subst hsame
  obtain ⟨hmem, hdead⟩ := hs.consumed_apply env
    (c := ⟨inst.liveTokens, some row.nodeKey, inst.context env.event, inst.decisionMap env⟩)
    rfl hr hrow (.inl hcons)
  obtain ⟨res, -, heq⟩ := hmid.apply_eq env r
  have hmem' : row.restate r ∈
      ((inst.addResult row.nodeKey (result.getD (.obj [])) actor).apply env r).tokens := by
    rw [heq]
    exact hmem
  obtain ⟨hchain, -⟩ : Chain g (fun _ => True) _ more last ∧ _ := settleRounds_chain hlast
  obtain ⟨row', hrow', hid, hdead'⟩ := hchain.consumed hwf (hstage.sound hwf hs) hmem' hdead
  exact ⟨row', hrow', hid, hdead'⟩

end Transactions

section Main

variable [LinearOrder ι]

/-- **No step is stuck** in a state that a run of the service reaches, as long as no node
with a task kind has two token rows: no token waits at a step of an automatic kind, and for
a token that waits at an operator's step `complete_step` returns and consumes it. -/
theorem no_step_stuck {ext : Externals} {caps : Option (List String)} {definition : Json}
    {calls : List (Call ι)} {inst : Instance ι} (hacc : Accepted ext caps definition g)
    (hguards : ParsableGuards g) (hfit : SettlesThroughout ι g)
    (hrun : ServiceRun ext g (fun _ _ => True) calls inst) (hsingle : SingleTokens g inst) :
    (∀ row ∈ inst.tokens, row.state = .waiting → (kindAt g row.nodeKey).any (·.auto) = false) ∧
    ∀ (env : Env ι) (row : TokenRow ι) (result : Option Json) (actor : Option String),
      TimersCanRun ext env g → row ∈ inst.tokens → row.state = .waiting →
      (kindAt g row.nodeKey).any (·.operator) = true →
      ∃ more inst', Returns (completeStep ext env g inst row.nodeKey result actor) more inst' ∧
        ∃ row' ∈ inst'.tokens, row'.id = row.id ∧ row'.state = .consumed := by
  have hwf := hacc.wellFormed
  obtain ⟨hstages, -, hdisp⟩ := hrun.spec (fun _ => True) hwf fun _ _ _ _ _ _ _ => trivial
  refine ⟨fun row hrow hwait => ?_, fun env row result actor htimers hrow hwait hop => ?_⟩
  · by_contra hauto
    have hauto := Bool.eq_true_of_not_eq_false hauto
    have hkind : kindAt g row.nodeKey ≠ none := fun hnone => by simp [hnone] at hauto
    have hdone := hdisp row hrow hwait hauto
    rw [hsingle.not_done (hstages.sound hwf) hrow hwait hkind] at hdone
    cases hdone
  · have hkind : kindAt g row.nodeKey ≠ none := fun hnone => by simp [hnone] at hop
    exact completeStep_finishes hwf hguards hfit htimers hstages hsingle hrow hwait hkind result
      actor

end Main

/-! ## One step, and a step that two tokens reach -/

def oneStep : Definition where
  start := "e0"
  nodes := [.event "e0", .function "f" .manual, .event "e1"]
  edges := [.plain "a" "e0" "f", .plain "b" "f" "e1"]

theorem oneStep_accepted : Accepted .plain none oneStep.toJson oneStep.flatten :=
  accepted_toJson (by decide) (by rfl) (by rfl)

theorem oneStep_nodes :
    oneStep.flatten.nodes = [.event "e0", .event "e1", .function "f" .manual] := by
  rfl

/-- Whatever tokens it starts from, a call passes each event of the workflow at most as often
as tokens are active there. -/
theorem oneStep_settles : SettlesThroughout ℕ oneStep.flatten := by
  intro calls inst hrun env target context run work henter
  obtain ⟨-, rfl, -⟩ := Call.enter_ok henter
  let active (k : String) : ℕ := work.countP fun w => w.nodeKey = k && w.isActive
  have hnodes : (oneStep.flatten.run context (inst.decisionMap env)).graph.nodes
      = [.event "e0", .event "e1", .function "f" .manual] := oneStep_nodes
  have hsent : ∀ m ∈ oneStep.flatten.nodes,
      sentEdges (oneStep.flatten.run context (inst.decisionMap env)) m =
        oneStep.flatten.out m.key := by
    rw [oneStep_nodes]
    simp [sentEdges, GraphNode.event, GraphNode.function, GraphNode.role]
    exact ⟨rfl, rfl, rfl⟩
  have hout : oneStep.flatten.out "e0" = [.plain "a" "e0" "f"] ∧ oneStep.flatten.out "e1" = [] :=
    ⟨rfl, rfl⟩
  refine ⟨fun k => if k = "f" then 0 else active k, ?_, ?_⟩
  · intro n hn htask
    left
    rw [hnodes] at hn ⊢
    rw [oneStep_nodes] at hsent
    simp only [mem_cons, not_mem_nil, or_false, forall_eq_or_imp, forall_eq] at hsent hn
    simp only [map_cons, map_nil, hsent]
    rcases hn with rfl | rfl | rfl
    · simp [GraphNode.event, GraphNode.function, hout, GraphEdge.plain]
      exact le_refl (active "e0")
    · simp [GraphNode.event, GraphNode.function, hout, GraphEdge.plain]
      exact le_refl (active "e1")
    · exact absurd rfl htask
  · have hle : ∀ k, active k ≤ work.length := fun k => countP_le_length
    have hact : work.countP W.isActive ≤ work.length := countP_le_length
    rw [hnodes]
    rw [oneStep_nodes] at hsent
    simp only [mem_cons, not_mem_nil, or_false, forall_eq_or_imp, forall_eq] at hsent
    simp only [map_cons, map_nil, hsent]
    have h0 := hle "e0"
    have hbudget : budget (oneStep.flatten.run context (inst.decisionMap env)).graph work
        = (3 + 2 + work.length) * (3 + 1) + 100 := rfl
    simp only [hbudget, GraphNode.event, GraphNode.function, hout, length_cons, length_nil,
      sum_cons, sum_nil, if_true, show ("e0" = "f") = False by simp, if_false,
      show ("e1" = "f") = False by simp]
    omega

/-- The workflow of one step after its start. -/
def oneStepStarted : Instance ℕ where
  id := "i"
  status := .running
  tokens := [⟨1, "e0", none, .consumed, none, 0⟩, ⟨2, "f", some "a", .waiting, none, 0⟩]
  results := []
  decisions := []
  outbox := []

/-- The step of the started workflow can be finished. -/
theorem no_step_stuck_oneStep :
    ∃ more inst', Returns
        (completeStep .plain .plain oneStep.flatten oneStepStarted "f" none none) more inst' ∧
      ∃ row' ∈ inst'.tokens, row'.id = 2 ∧ row'.state = .consumed := by
  have hstart : Returns (startInstance .plain .plain oneStep.flatten "i")
      (startInstance .plain .plain oneStep.flatten "i").log oneStepStarted := ⟨rfl, by rfl⟩
  refine (no_step_stuck oneStep_accepted ?_ oneStep_settles (.start hstart) ?_).2 .plain
    ⟨2, "f", some "a", .waiting, none, 0⟩ none none ?_ ?_ rfl ?_
  · have hplain : ∀ e ∈ oneStep.flatten.edges, e.condition.isNone = true := by decide
    intro e he cond hc
    have hnone := hplain e he
    simp [hc] at hnone
  · decide
  · have huntimed : ∀ n ∈ oneStep.flatten.nodes, n.functionKind.any (·.timed) = false := by
      decide
    intro n hn hkind
    simp [huntimed n hn] at hkind
  · simp [oneStepStarted]
  · decide

/-- A manual step that both branches of an AND split lead to. -/
def reentered : Definition where
  start := "e0"
  nodes := [.event "e0", .connector "as" .and .split, .event "e1", .event "e2",
    .function "f" .manual, .event "e3"]
  edges := [.plain "a" "e0" "as", .plain "b" "as" "e1", .plain "c" "as" "e2", .plain "d" "e1" "f",
    .plain "e" "e2" "f", .plain "g" "f" "e3"]

/-- The workflow after the step was finished once: its second token is left. -/
def reenteredLeft : Instance ℕ where
  id := "i"
  status := .running
  tokens := [⟨1, "e0", none, .consumed, none, 0⟩, ⟨2, "f", some "d", .consumed, none, 0⟩,
    ⟨3, "f", some "e", .waiting, none, 0⟩]
  results := [⟨"f", .obj [], none⟩]
  decisions := []
  outbox := []

/-- **The second token of a step is stuck**: the instance is running and a token waits at a
manual step, but whatever is asked `complete_step` for that step changes nothing. -/
theorem second_token_stuck : ∃ calls : List (Call ℕ),
    ServiceRun .plain reentered.flatten (fun _ _ => True) calls reenteredLeft ∧
    reenteredLeft.status = .running ∧
    (∃ row ∈ reenteredLeft.tokens, row.nodeKey = "f" ∧ row.state = .waiting) ∧
    (kindAt reentered.flatten "f").any (·.operator) = true ∧
    ∀ ext env result actor,
      completeStep ext env reentered.flatten reenteredLeft "f" result actor =
        pure reenteredLeft := by
  have h : Returns
      (session .plain .plain reentered.flatten "i" [.completeStep "f" none none])
      (session .plain .plain reentered.flatten "i" [.completeStep "f" none none]).log
      reenteredLeft := ⟨rfl, by rfl⟩
  refine ⟨_, .of_session (fun _ _ _ => trivial) h, rfl, by decide, by decide, ?_⟩
  intro ext env result actor
  exact if_pos (by decide)

end BbzPlatform.Workflow
