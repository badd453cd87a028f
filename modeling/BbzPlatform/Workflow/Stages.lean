import BbzPlatform.Workflow.Rows
import BbzPlatform.Workflow.Settling

/-!
# Stages of a transaction

Whatever an operation of the service does to an instance, it does in stages of a few
forms: deadlines are set or cleared, an outbox row is added, the engine is called and
its mutations are written, with a task result when a step is finished, or an operator's
decision makes a parked token active.  An operation that returns is a chain of such
stages (`Op.transacted`), so what every stage preserves holds in every
state of an instance.
-/

namespace BbzPlatform.Workflow

open RuleDsl Logged

variable {ι : Type} [LinearOrder ι]

/-! ## Stages -/

/-- A decision names branches of its split: at least one, for an XOR split exactly one. -/
def DecisionRow.Valid (g : DerivedGraph) (d : DecisionRow) : Prop :=
  BranchesOf g d.connectorNodeKey d.chosenBranches

section Stages

variable (g : DerivedGraph) (may : String → Prop)

/-- The result of a step is recorded, by an operator, a timer or the service itself, which
also puts the action of the step into the outbox. -/
inductive Recorded (inst : Instance ι) (k : String) : Instance ι → Prop where
  | operator (hk : may k) (result : Json) (actor : Option String) :
      Recorded inst k (inst.addResult k result actor)
  | timer (hk : (kindAt g k).any (·.timed)) :
      Recorded inst k (inst.addResult k (.obj [("timer", .str "elapsed")]) none)
  | auto {n : GraphNode} {kind : FunctionKind} {action : String} (hn : graphNode g k = some n)
      (hkind : n.functionKind = some kind) (hauto : kind.auto)
      (haction : outboxAction kind = .ok action) :
      Recorded inst k ((inst.enqueue (stepOutboxRow inst.id k action n kind)).addResult k
        (.obj [("dispatched", .bool true), ("kind", .str kind.name)]) none)

/-- A stage of a transaction, with the engine call it makes.  An operator may finish the
steps for which `may` holds. -/
inductive Stage : Instance ι → List (Call ι) → Instance ι → Prop where
  | schedule {inst : Instance ι} (f : TokenRow ι → Option ℤ)
      (hf : ∀ row ∈ inst.tokens, f row ≠ none →
        row.resumeAt ≠ none ∨ (kindAt g row.nodeKey).any (·.timed)) :
      Stage inst []
        { inst with tokens := inst.tokens.map fun row => { row with resumeAt := f row } }
  | advance {inst : Instance ι} {env : Env ι} {r : EngineResult ι}
      (hr : (inst.call env none).outcome g = .ok r) :
      Stage inst [inst.call env none] (inst.apply env r)
  | finish {inst mid : Instance ι} {env : Env ι} {k : String} {r : EngineResult ι}
      {context : Context} (hdone : inst.stepDone k = false) (hmid : Recorded g may inst k mid)
      (hctx : context = inst.context env.event ∨ context = mid.context env.event)
      (hr : Call.outcome g ⟨inst.liveTokens, some k, context, inst.decisionMap env⟩ = .ok r) :
      Stage inst [⟨inst.liveTokens, some k, context, inst.decisionMap env⟩] (mid.apply env r)

/-- An operator's decision is recorded and makes the token parked at the split active. -/
inductive Woken (inst : Instance ι) : Instance ι → Prop where
  | decide {row : TokenRow ι} {d : DecisionRow} (hrow : row ∈ inst.tokens)
      (hw : row.state = .waiting) (hkey : d.connectorNodeKey = row.nodeKey) (hd : d.Valid g) :
      Woken inst ((inst.setState [row.id] .active).addDecision d)

/-- Stages in sequence. -/
inductive Chain : Instance ι → List (Call ι) → Instance ι → Prop where
  | nil (inst : Instance ι) : Chain inst [] inst
  | cons {a b c : Instance ι} {ls more : List (Call ι)} (h : Stage g may a ls b)
      (rest : Chain b more c) : Chain a (ls ++ more) c

end Stages

/-! ## What every stage preserves -/

/-- The facts about the rows of an instance that hold between all stages. -/
structure Instance.Sound (g : DerivedGraph) (inst : Instance ι) : Prop where
  nodup : (inst.tokens.map (·.id)).Nodup
  placed : ∀ row ∈ inst.tokens, row.nodeKey ∈ g.nodes.map (·.key)
  timed : ∀ row ∈ inst.tokens, row.resumeAt ≠ none → (kindAt g row.nodeKey).any (·.timed) = true
  passed : ∀ res ∈ inst.results, ∃ row ∈ inst.tokens,
    row.nodeKey = res.nodeKey ∧ row.state = .consumed
  decided : ∀ d ∈ inst.decisions, d.Valid g

variable {g : DerivedGraph} {n : GraphNode} {inst inst' mid a b : Instance ι} {k : String}
  {r : EngineResult ι} {env : Env ι} {c : Call ι} {row : TokenRow ι} {may : String → Prop}
  {calls more : List (Call ι)} {ext : Externals} {rows : List (TokenRow ι)} {actor : Option String}
  {rounds fired : ℕ} {result : Option Json}

/-- What a choice split selects by its conditions can be recorded. -/
theorem DecisionMade.MadeAt.valid {run : Run} {d : DecisionMade}
    (hwf : g.WellFormed) (hidx : run.idx = g.index) (hn : g.node? n.key = some n)
    (h : d.MadeAt run n) :
    DecisionRow.Valid g ⟨d.connectorNodeKey, d.chosenEdgeKeys, true, none⟩ := by
  obtain ⟨-, edges, hch, rfl⟩ := h
  obtain ⟨hsub, hne, hxor⟩ := choose_spec hch
  refine ⟨n, (graphNode_eq hwf _).trans hn, by simpa using hne, ?_, by simpa using hxor⟩
  intro e he
  obtain ⟨edge, hedge, rfl⟩ := List.mem_map.mp he
  have hout : edge ∈ g.out n.key := by
    have := hsub.subset hedge
    rwa [hidx] at this
  obtain ⟨hmem, hfrom⟩ := DerivedGraph.mem_out.mp hout
  exact List.mem_map_of_mem (List.mem_filter.mpr ⟨hmem, by simpa using hfrom⟩)

theorem Instance.target_row {context : Context} {decisions : Mapping (List String)}
    (hr : Call.outcome g ⟨inst.liveTokens, some k, context, decisions⟩ = .ok r) :
    ∃ row ∈ inst.tokens, (row.nodeKey = k ∧ row.state = .waiting) ∧ row.id ∈ r.consumed := by
  obtain ⟨t, ht, hcons⟩ := Call.target_consumed hr rfl
  obtain ⟨row, hrow, -, rfl⟩ := mem_liveTokens.mp (List.mem_of_find?_eq_some ht)
  have hat := List.find?_some ht
  simp only [Bool.and_eq_true, decide_eq_true_eq] at hat
  exact ⟨row, hrow, hat, hcons⟩

namespace Instance.Sound

theorem placed_liveTokens (hs : inst.Sound g) : Placed g inst.liveTokens := by
  intro t ht
  obtain ⟨row, hrow, hlive, rfl⟩ := mem_liveTokens.mp ht
  exact ⟨hlive, hs.placed row hrow⟩

theorem notMem_parked (hs : inst.Sound g) (hc : c.tokens = inst.liveTokens)
    (hr : c.outcome g = .ok r) (hrow : row ∈ inst.tokens)
    (hdead : row.state = .consumed) : row.id ∉ r.parked := by
  intro hp
  have hids := (Call.reported_ids (hc ▸ nodup_liveTokens hs.nodup) hr).2.1 hp
  rw [hc] at hids
  obtain ⟨t, ht, hid⟩ := List.mem_map.mp hids
  obtain ⟨row', hrow', hlive, rfl⟩ := mem_liveTokens.mp ht
  exact hlive (List.inj_on_of_nodup_map hs.nodup hrow' hrow hid ▸ hdead)

theorem consumed_apply (hs : inst.Sound g) (env : Env ι) (hc : c.tokens = inst.liveTokens)
    (hr : c.outcome g = .ok r) (hrow : row ∈ inst.tokens)
    (h : row.id ∈ r.consumed ∨ row.state = .consumed) :
    row.restate r ∈ (inst.apply env r).tokens ∧ (row.restate r).state = .consumed := by
  refine ⟨?_, ?_⟩
  · rw [apply_eq]
    exact List.mem_append_left _ (List.mem_map_of_mem hrow)
  · have hdisj := (Call.reported_ids (hc ▸ nodup_liveTokens hs.nodup) hr).2.2
    rcases h with hmem | hdead
    · have hno : row.id ∉ r.parked := fun hp => hdisj hmem hp
      simp [TokenRow.restate, hmem, hno]
    · simp [TokenRow.restate, hs.notMem_parked hc hr hrow hdead, hdead]

/-- Writing the engine's result preserves soundness. -/
theorem apply (hwf : g.WellFormed) (hs : inst.Sound g) (hc : c.tokens = inst.liveTokens)
    (hr : c.outcome g = .ok r) : (inst.apply env r).Sound g := by
  have hnew := inserted_newRows env (inst.tokens.map (·.id)) r.spawned
  have hrows : ∀ row ∈ (inst.apply env r).tokens,
      (∃ row₀ ∈ inst.tokens, row = row₀.restate r) ∨
        row ∈ newRows env (inst.tokens.map (·.id)) r.spawned := by
    rw [apply_eq]
    exact List.forall_mem_append.mpr ⟨List.forall_mem_map.mpr fun row₀ hrow₀ =>
      .inl ⟨row₀, hrow₀, rfl⟩, fun _ => .inr⟩
  constructor
  case nodup =>
    rw [apply_eq]
    simp only [List.map_append, List.map_map]
    refine List.nodup_append.mpr ⟨hs.nodup, hnew.nodup, ?_⟩
    rintro i hi j hj rfl
    obtain ⟨row, hrow, rfl⟩ := List.mem_map.mp hj
    exact hnew.fresh row hrow hi
  case placed =>
    intro row hrow
    rcases hrows row hrow with ⟨row₀, hrow₀, rfl⟩ | hrow
    · exact hs.placed row₀ hrow₀
    · have hp : (row.nodeKey, row.inboundEdgeKey) ∈ r.spawned := by
        rw [← hnew.places]
        exact List.mem_map_of_mem hrow
      obtain ⟨e, he, heq⟩ := Call.spawned_edges hr _ hp
      have hkey : row.nodeKey = e.toKey := congrArg Prod.fst heq
      exact hkey ▸ hwf.to_mem e he
  case timed =>
    intro row hrow hne
    rcases hrows row hrow with ⟨row₀, hrow₀, rfl⟩ | hrow
    · exact hs.timed row₀ hrow₀ hne
    · exact absurd (hnew.unarmed row hrow) hne
  case passed =>
    intro res hres
    have hres : res ∈ inst.results := by rwa [apply_eq] at hres
    obtain ⟨row, hrow, hkey, hdead⟩ := hs.passed res hres
    obtain ⟨hmem, hstate⟩ := hs.consumed_apply env hc hr hrow (.inr hdead)
    exact ⟨_, hmem, hkey, hstate⟩
  case decided =>
    rw [apply_eq]
    refine List.forall_mem_append.mpr ⟨hs.decided, List.forall_mem_map.mpr fun made hmade => ?_⟩
    obtain ⟨n, hn, hat⟩ := Call.decisions_made hr hmade
    exact hat.valid hwf rfl hn

end Instance.Sound

omit [LinearOrder ι] in
/-- What recording a result changes: the results get a row for the step, and the outbox may
grow. -/
theorem Recorded.eq (h : Recorded g may inst k mid) :
    ∃ res : TaskResult, res.nodeKey = k ∧
      mid = { inst with results := inst.results ++ [res], outbox := mid.outbox } := by
  have henqueue : ∀ row, inst.enqueue row = { inst with outbox := (inst.enqueue row).outbox } := by
    intro row
    unfold Instance.enqueue
    split_ifs <;> rfl
  cases h with
  | operator hk result actor => exact ⟨⟨k, result, actor⟩, rfl, rfl⟩
  | timer hk => exact ⟨⟨k, _, none⟩, rfl, rfl⟩
  | @auto n kind action hn hkind hauto haction =>
    refine ⟨⟨k, .obj [("dispatched", .bool true), ("kind", .str kind.name)], none⟩, rfl, ?_⟩
    rw [henqueue]
    rfl

/-- Writing a result does not look at the task results and the outbox. -/
theorem Recorded.apply_eq (h : Recorded g may inst k mid) (env : Env ι) (r : EngineResult ι) :
    ∃ res : TaskResult, res.nodeKey = k ∧ mid.apply env r =
      { inst.apply env r with results := inst.results ++ [res], outbox := mid.outbox } := by
  obtain ⟨res, hkey, heq⟩ := h.eq
  refine ⟨res, hkey, ?_⟩
  rw [Instance.apply_eq, Instance.apply_eq, heq]

def Instance.Quiet (inst : Instance ι) : Prop := ∀ row ∈ inst.tokens, row.state ≠ .active

/-- The engine leaves no token active. -/
theorem Instance.Sound.quiet_apply (hwf : g.WellFormed)
    (hs : inst.Sound g) (hc : c.tokens = inst.liveTokens) (hr : c.outcome g = .ok r) :
    (inst.apply env r).Quiet := by
  intro row hrow hact
  obtain ⟨ids, hids, hperm⟩ := Instance.applyResult_perm env hs.nodup hc hr
  have hmem : row.token ∈ applyResult ids c.tokens r :=
    hperm.mem_iff.mpr (Instance.mem_liveTokens.mpr ⟨row, hrow, by simp [hact], rfl⟩)
  have hwait := (Call.waiting_applied hwf (hc ▸ hs.placed_liveTokens)
    (hc ▸ Instance.nodup_liveTokens hs.nodup) hr hids.length _ hmem).1
  have hact : row.token.state = .active := hact
  rw [hact] at hwait
  cases hwait

theorem Stage.quiet (hwf : g.WellFormed) (hs : inst.Sound g) (h : Stage g may inst calls inst')
    (hq : inst.Quiet) : inst'.Quiet := by
  cases h with
  | schedule f hf =>
    intro row hrow
    obtain ⟨row₀, hrow₀, rfl⟩ := List.mem_map.mp hrow
    exact hq row₀ hrow₀
  | advance hr => exact hs.quiet_apply hwf rfl hr
  | @finish mid env k r context hdone hmid hctx hr =>
    obtain ⟨res, -, heq⟩ := hmid.apply_eq env r
    rw [heq]
    exact hs.quiet_apply hwf (c := ⟨inst.liveTokens, some k, context, inst.decisionMap env⟩) rfl hr

/-- **Every stage preserves soundness.** -/
theorem Stage.sound (hwf : g.WellFormed) (h : Stage g may inst calls inst')
    (hs : inst.Sound g) : inst'.Sound g := by
  cases h with
  | schedule f hf =>
    refine ⟨?_, ?_, ?_, ?_, hs.decided⟩
    · rw [List.map_map]
      exact hs.nodup
    · intro row hrow
      obtain ⟨row₀, hrow₀, rfl⟩ := List.mem_map.mp hrow
      exact hs.placed row₀ hrow₀
    · intro row hrow hne
      obtain ⟨row₀, hrow₀, rfl⟩ := List.mem_map.mp hrow
      rcases hf row₀ hrow₀ hne with harmed | hkind
      · exact hs.timed row₀ hrow₀ harmed
      · exact hkind
    · intro res hres
      obtain ⟨row, hrow, hkey, hdead⟩ := hs.passed res hres
      exact ⟨_, List.mem_map_of_mem hrow, hkey, hdead⟩
  | advance hr => exact hs.apply hwf rfl hr
  | @finish mid env k r context hdone hmid hctx hr =>
    obtain ⟨res, hkey, heq⟩ := hmid.apply_eq env r
    have hafter : (inst.apply env r).Sound g := hs.apply hwf
      (c := ⟨inst.liveTokens, some k, context, inst.decisionMap env⟩) rfl hr
    rw [heq]
    refine ⟨hafter.nodup, hafter.placed, hafter.timed, ?_, hafter.decided⟩
    intro res' hres'
    rcases List.mem_append.mp hres' with hres' | hres'
    · exact hafter.passed res' (by rwa [Instance.apply_eq])
    · obtain ⟨row, hrow, ⟨hat, -⟩, hcons⟩ := Instance.target_row hr
      obtain ⟨hmem, hdead⟩ := hs.consumed_apply env
        (c := ⟨inst.liveTokens, some k, context, inst.decisionMap env⟩) rfl hr hrow (.inl hcons)
      refine ⟨_, hmem, ?_, hdead⟩
      rw [List.mem_singleton.mp hres', hkey]
      exact hat

theorem Woken.sound (h : Woken g inst inst') (hs : inst.Sound g) : inst'.Sound g := by
  obtain @⟨row, d, hrow, hw, hkey, hd⟩ := h
  have hrows : ∀ row' ∈ ((inst.setState [row.id] .active).addDecision d).tokens,
      ∃ row₀ ∈ inst.tokens, row'.nodeKey = row₀.nodeKey ∧ row'.resumeAt = row₀.resumeAt := by
    intro row' hrow'
    obtain ⟨row₀, hrow₀, rfl⟩ := List.mem_map.mp hrow'
    refine ⟨row₀, hrow₀, ?_, ?_⟩ <;> split_ifs <;> rfl
  refine ⟨?_, ?_, ?_, ?_, ?_⟩
  · have hids : ((inst.setState [row.id] .active).addDecision d).tokens.map (·.id)
        = inst.tokens.map (·.id) := by
      simp only [Instance.addDecision, Instance.setState, List.map_map]
      refine List.map_congr_left fun row' _ => ?_
      simp only [Function.comp_apply]
      split_ifs <;> rfl
    exact hids ▸ hs.nodup
  · intro row' hrow'
    obtain ⟨row₀, hrow₀, hk, -⟩ := hrows row' hrow'
    exact hk ▸ hs.placed row₀ hrow₀
  · intro row' hrow' hne
    obtain ⟨row₀, hrow₀, hk, hr⟩ := hrows row' hrow'
    rw [hk]
    exact hs.timed row₀ hrow₀ (hr ▸ hne)
  · intro res hres
    obtain ⟨row₀, hrow₀, hk, hdead⟩ := hs.passed res hres
    refine ⟨row₀, List.mem_map.mpr ⟨row₀, hrow₀, if_neg ?_⟩, hk, hdead⟩
    intro hid
    have heq := List.inj_on_of_nodup_map hs.nodup hrow₀ hrow (List.mem_singleton.mp hid)
    rw [heq, hw] at hdead
    cases hdead
  · exact List.forall_mem_append.mpr ⟨hs.decided, List.forall_mem_singleton.mpr hd⟩

section Operations

variable {c : Instance ι}

theorem Recorded.call (h : Recorded g may inst k inst') :
    inst'.call env (some k)
      = ⟨inst.liveTokens, some k, inst'.context env.event, inst.decisionMap env⟩ := by
  obtain ⟨res, -, heq⟩ := h.eq
  have htok : inst'.tokens = inst.tokens := by rw [heq]
  have hdec : inst'.decisions = inst.decisions := by rw [heq]
  rw [Instance.call, Instance.liveTokens, htok]
  simp only [Call.mk.injEq, true_and]
  refine ⟨rfl, ?_⟩
  unfold Instance.decisionMap
  rw [hdec]

theorem Stage.chain (h : Stage g may a calls b) : Chain g may a calls b := by
  simpa using Chain.cons h (.nil b)

theorem Chain.trans (h : Chain g may a calls b) (h' : Chain g may b more c) :
    Chain g may a (calls ++ more) c := by
  induction h with
  | nil => exact h'
  | cons hs _ ih =>
    rw [List.append_assoc]
    exact .cons hs (ih h')

theorem Chain.invariant {P : Instance ι → Prop} (hP : ∀ a ls b, Stage g may a ls b → P a → P b)
    (h : Chain g may a calls b) : P a → P b := by
  induction h with
  | nil => exact id
  | cons hs _ ih => exact fun ha => ih (hP _ _ _ hs ha)

theorem runEngine_returns {target : Option String} :
    Returns (runEngine env g inst target) calls inst' ↔
      ∃ r, (inst.call env target).outcome g = .ok r ∧ calls = [inst.call env target] ∧
        inst' = inst.apply env r := by
  have hmap : ∀ r, (((inst.call env target).outcome g).mapError .engine :
        Except (ServiceError ι) (EngineResult ι)) = .ok r
      ↔ (inst.call env target).outcome g = .ok r := by
    intro r
    cases (inst.call env target).outcome g <;> simp [Except.mapError]
  simp only [runEngine, returns_bind, returns_request, returns_pure, hmap]
  constructor
  · rintro ⟨-, -, r, ⟨rfl, hr⟩, ⟨rfl, rfl⟩, rfl⟩
    exact ⟨r, hr, by simp, rfl⟩
  · rintro ⟨r, hr, rfl, rfl⟩
    exact ⟨_, _, r, ⟨rfl, hr⟩, ⟨rfl, rfl⟩, by simp⟩

omit [LinearOrder ι] in
theorem deadline_some {due : ℤ} (h : deadline ext env g row = .ok (some due)) :
    (kindAt g row.nodeKey).any (·.timed) = true := by
  unfold deadline at h
  cases hn : graphNode g row.nodeKey with
  | none => simp only [hn] at h; cases h
  | some n =>
    simp only [hn] at h
    split_ifs at h with hk
    · simp only [Bool.and_eq_true] at hk
      simp [kindAt, hn, hk.1]
    · cases h

omit [LinearOrder ι] in
theorem armed_eq (row : TokenRow ι) :
    row.armed ext env g = { row with resumeAt := (row.armed ext env g).resumeAt } ∧
      ((row.armed ext env g).resumeAt ≠ none →
        row.resumeAt ≠ none ∨ (kindAt g row.nodeKey).any (·.timed) = true) := by
  unfold TokenRow.armed
  cases hd : deadline ext env g row with
  | error err => exact ⟨rfl, .inl⟩
  | ok due =>
    cases due with
    | none => exact ⟨rfl, .inl⟩
    | some due => exact ⟨rfl, fun _ => .inr (deadline_some hd)⟩

/-- Arming returns if every deadline can be worked out, and raises what a deadline raises. -/
theorem armTimers_cases (ext : Externals) (env : Env ι) (g : DerivedGraph) (inst : Instance ι)
    (rows : List (TokenRow ι)) :
    ((∀ row ∈ rows, ∃ due, deadline ext env g row = .ok due) ∧ armTimers ext env g inst rows
        = .ok { inst with tokens := inst.tokens.map fun row =>
          if row ∈ rows then row.armed ext env g else row }) ∨
      ∃ row err, deadline ext env g row = .error err ∧
        armTimers ext env g inst rows = .error err := by
  have hall : ((∀ row ∈ rows, ∃ due, deadline ext env g row = .ok due) ∧
        rows.forM (fun r => (deadline ext env g r).map fun _ => ()) = .ok ()) ∨
      ∃ row err, deadline ext env g row = .error err ∧
        rows.forM (fun r => (deadline ext env g r).map fun _ => ()) = .error err := by
    induction rows with
    | nil => exact .inl ⟨by simp, rfl⟩
    | cons row rows ih =>
      simp only [List.forM]
      cases hdue : deadline ext env g row with
      | error err => exact .inr ⟨row, err, hdue, rfl⟩
      | ok due =>
        exact ih.imp_left fun ⟨h, hrows⟩ => ⟨List.forall_mem_cons.mpr ⟨⟨due, hdue⟩, h⟩, hrows⟩
  unfold armTimers
  rcases hall with ⟨h, hrows⟩ | ⟨row, err, h, hrows⟩ <;> rw [hrows]
  · exact .inl ⟨h, rfl⟩
  · exact .inr ⟨row, err, h, rfl⟩

theorem armTimers_ok (h : armTimers ext env g inst rows = .ok inst') :
    inst' = { inst with tokens := inst.tokens.map fun row => { row with
      resumeAt := if row ∈ rows then (row.armed ext env g).resumeAt else row.resumeAt } } := by
  rcases armTimers_cases ext env g inst rows with ⟨-, hok⟩ | ⟨-, err, -, herr⟩
  · cases hok.symm.trans h
    congr 1
    refine List.map_congr_left fun row _ => ?_
    split_ifs
    · exact (armed_eq row).1
    · rfl
  · cases herr.symm.trans h

theorem armTimers_stage (h : armTimers ext env g inst rows = .ok inst') :
    Stage g may inst [] inst' := by
  rw [armTimers_ok h]
  refine .schedule (fun row => if row ∈ rows then (row.armed ext env g).resumeAt else row.resumeAt)
    fun row _ hne => ?_
  split_ifs at hne
  · exact (armed_eq row).2 hne
  · exact .inl hne

/-- Every step of an automatic kind at which a token waits has been dispatched. -/
def Dispatched (g : DerivedGraph) (inst : Instance ι) : Prop :=
  ∀ row ∈ inst.tokens, row.state = .waiting → (kindAt g row.nodeKey).any (·.auto) = true →
    inst.stepDone row.nodeKey = true

omit [LinearOrder ι] in
theorem nextAuto_some (h : nextAuto g inst rows = some k) :
    inst.stepDone k = false ∧
      (∃ n kind, graphNode g k = some n ∧ n.functionKind = some kind ∧ kind.auto = true) ∧
      ∃ row ∈ rows, row.nodeKey = k := by
  unfold nextAuto at h
  obtain ⟨row, hrow, rfl⟩ := Option.map_eq_some_iff.mp h
  have hp := List.find?_some hrow
  simp only [Bool.and_eq_true, Bool.not_eq_true', Option.any_eq_true_iff_get] at hp
  obtain ⟨⟨hsome, hauto⟩, hdone⟩ := hp
  obtain ⟨n, hn, hkind⟩ := Option.bind_eq_some_iff.mp (Option.some_get hsome).symm
  exact ⟨hdone, ⟨n, _, hn, hkind, hauto⟩, row, List.mem_of_find?_eq_some hrow, rfl⟩

theorem dispatched_of_nextAuto
    (harm : armTimers ext env g inst (env.scan inst.waitingRows) = .ok inst')
    (h : nextAuto g inst' (env.scan inst.waitingRows) = none) : Dispatched g inst' := by
  have htok := armTimers_ok harm
  intro row hrow hw hk
  rw [htok] at hrow
  obtain ⟨row₀, hrow₀, rfl⟩ := List.mem_map.mp hrow
  have hmem : row₀ ∈ env.scan inst.waitingRows := by
    refine (env.scan_perm _).mem_iff.mpr (List.mem_filter.mpr ⟨hrow₀, ?_⟩)
    simpa using hw
  have hnone := List.find?_eq_none.mp (Option.map_eq_none_iff.mp h) row₀ hmem
  by_contra hdone
  exact hnone (by simp_all)

theorem runAuto_stage {kind : FunctionKind} (hdone : inst.stepDone k = false)
    (hn : graphNode g k = some n) (hkind : n.functionKind = some kind) (hauto : kind.auto = true)
    (h : Returns (runAuto env g inst k n kind) calls inst') : Stage g may inst calls inst' := by
  simp only [runAuto, returns_bind, returns_lift, runEngine_returns] at h
  obtain ⟨-, -, action, ⟨rfl, haction⟩, ⟨r, hr, rfl, rfl⟩, rfl⟩ := h
  have haction : outboxAction kind = .ok action := by
    cases ho : outboxAction kind <;> simp_all [Except.mapError]
  have hmid : Recorded g may inst k _ := .auto hn hkind hauto haction
  rw [hmid.call] at hr ⊢
  simpa using Stage.finish hdone hmid (.inr rfl) hr

theorem settleRounds_succ : Returns (settleRounds ext env g (rounds + 1) inst) calls inst' ↔
      ∃ mid, armTimers ext env g inst (env.scan inst.waitingRows) = .ok mid ∧
        ((nextAuto g mid (env.scan inst.waitingRows) = none ∧ calls = [] ∧ mid = inst') ∨
          ∃ k n kind, nextAuto g mid (env.scan inst.waitingRows) = some k ∧
            graphNode g k = some n ∧ n.functionKind = some kind ∧ kind.auto = true ∧
            ∃ ls₁ ls₂ next, Returns (runAuto env g mid k n kind) ls₁ next ∧
              Returns (settleRounds ext env g rounds next) ls₂ inst' ∧ calls = ls₁ ++ ls₂) := by
  simp only [settleRounds, returns_bind, returns_lift]
  constructor
  · rintro ⟨-, more, mid, ⟨rfl, harm⟩, h, rfl⟩
    refine ⟨mid, harm, ?_⟩
    cases hnext : nextAuto g mid (env.scan inst.waitingRows) with
    | none =>
      simp only [hnext, returns_pure] at h
      exact .inl ⟨rfl, h⟩
    | some k =>
      obtain ⟨-, ⟨n, kind, hn, hkind, hauto⟩, -⟩ := nextAuto_some hnext
      simp only [hnext, hn, hkind, returns_bind] at h
      exact .inr ⟨k, n, kind, rfl, hn, hkind, hauto, h⟩
  · rintro ⟨mid, harm, h⟩
    refine ⟨[], calls, mid, ⟨rfl, harm⟩, ?_, rfl⟩
    rcases h with ⟨hnext, h⟩ | ⟨k, n, kind, hnext, hn, hkind, -, h⟩
    · simpa only [hnext, returns_pure] using h
    · simpa only [hnext, hn, hkind, returns_bind] using h

/-- **Settling is a chain of stages, and leaves no automatic step undispatched.** -/
theorem settleRounds_chain (h : Returns (settleRounds ext env g rounds inst) calls inst') :
    Chain g may inst calls inst' ∧ Dispatched g inst' := by
  induction rounds generalizing inst calls with
  | zero => exact absurd h returns_fail
  | succ rounds ih =>
    obtain ⟨mid, harm, ⟨hnext, rfl, rfl⟩ | ⟨k, n, kind, hnext, hn, hkind, hauto, ls₁, ls₂, next,
      hrun, hrest, rfl⟩⟩ := settleRounds_succ.mp h
    · exact ⟨(armTimers_stage harm).chain, dispatched_of_nextAuto harm hnext⟩
    · obtain ⟨hchain, hdisp⟩ := ih hrest
      have hstage : Stage g may mid ls₁ next :=
        runAuto_stage (nextAuto_some hnext).1 hn hkind hauto hrun
      exact ⟨(armTimers_stage harm).chain.trans (.cons hstage hchain), hdisp⟩

theorem drive_returns (may : String → Prop) (h : Returns (drive ext env g inst) calls inst') :
    ∃ r more, (inst.call env none).outcome g = .ok r ∧ calls = inst.call env none :: more ∧
      Chain g may (inst.apply env r) more inst' ∧ Dispatched g inst' := by
  simp only [drive, returns_bind, runEngine_returns] at h
  obtain ⟨-, more, -, ⟨r, hr, rfl, rfl⟩, hrest, rfl⟩ := h
  obtain ⟨hchain, hdisp⟩ := settleRounds_chain hrest
  exact ⟨r, more, hr, rfl, hchain, hdisp⟩

/-- What a transaction on an instance does: a chain of stages, or one that follows a
decision, where the engine is called first. -/
inductive Transacted (g : DerivedGraph) (may : String → Prop) (inst : Instance ι) :
    List (Call ι) → Instance ι → Prop where
  | chain {calls : List (Call ι)} {inst' : Instance ι} (h : Chain g may inst calls inst')
      (hdisp : Dispatched g inst → Dispatched g inst') : Transacted g may inst calls inst'
  | decide {mid inst' : Instance ι} {env : Env ι} {r : EngineResult ι} {more : List (Call ι)}
      (hmid : Woken g inst mid) (hr : (mid.call env none).outcome g = .ok r)
      (h : Chain g may (mid.apply env r) more inst') (hdisp : Dispatched g inst') :
      Transacted g may inst (mid.call env none :: more) inst'

theorem advanceInstance_transacted (h : Returns (advanceInstance ext env g inst) calls inst') :
    Transacted g may inst calls inst' := by
  unfold advanceInstance at h
  split_ifs at h
  · obtain ⟨rfl, rfl⟩ := returns_pure.mp h
    exact .chain (.nil _) id
  · obtain ⟨r, more, hr, rfl, hchain, hdisp⟩ := drive_returns may h
    exact .chain (.cons (.advance hr) hchain) fun _ => hdisp

theorem completeStep_returns (may : String → Prop)
    (h : Returns (completeStep ext env g inst k result actor) calls inst') :
    (inst.stepDone k = true ∧ calls = [] ∧ inst' = inst) ∨
    (inst.stepDone k = false ∧ ∃ r more, (inst.call env (some k)).outcome g = .ok r ∧
      calls = inst.call env (some k) :: more ∧
      Chain g may ((inst.addResult k (result.getD (.obj [])) actor).apply env r) more inst' ∧
      Dispatched g inst') := by
  unfold completeStep at h
  split_ifs at h with hdone
  · obtain ⟨rfl, rfl⟩ := returns_pure.mp h
    exact .inl ⟨hdone, rfl, rfl⟩
  · simp only [returns_bind, returns_request] at h
    obtain ⟨-, more, r, ⟨rfl, hr⟩, hrest, rfl⟩ := h
    obtain ⟨hchain, hdisp⟩ := settleRounds_chain hrest
    refine .inr ⟨by simpa using hdone, r, more, ?_, rfl, hchain, hdisp⟩
    cases hout : (inst.call env (some k)).outcome g with
    | ok r' => simpa [hout] using hr
    | error err => rw [hout] at hr; cases err <;> cases hr

theorem completeStep_transacted (hmay : inst.stepDone k = false →
      (∃ row ∈ inst.tokens, row.nodeKey = k ∧ row.state = .waiting) → may k)
    (h : Returns (completeStep ext env g inst k result actor) calls inst') :
    Transacted g may inst calls inst' := by
  rcases completeStep_returns may h with ⟨-, rfl, rfl⟩ | ⟨hdone, r, more, hr, rfl, hchain, hdisp⟩
  · exact .chain (.nil _) id
  · obtain ⟨row, hrow, hat, -⟩ := Instance.target_row hr
    have hk : may k := hmay hdone ⟨row, hrow, hat⟩
    exact .chain (.cons (.finish hdone (.operator hk _ actor) (.inl rfl) hr) hchain) fun _ => hdisp

theorem decide_transacted {chosen : List String}
    (h : Returns (decide ext env g inst k chosen actor) calls inst') :
    Transacted g may inst calls inst' := by
  unfold decide at h
  cases hn : graphNode g k with
  | none => rw [hn] at h; exact absurd h returns_fail
  | some n =>
    simp only [hn] at h
    split_ifs at h with htype hdup hout hxor
    · exact absurd h returns_fail
    · obtain ⟨rfl, rfl⟩ := returns_pure.mp h
      exact .chain (.nil _) id
    · exact absurd h returns_fail
    · exact absurd h returns_fail
    · split at h
      · exact absurd h returns_fail
      next row hrow =>
        obtain ⟨r, more, hr, rfl, hchain, hdisp⟩ := drive_returns may h
        have hmem : row ∈ inst.waitingRows.filter (·.nodeKey = k) := by simp [hrow]
        obtain ⟨hwait, hkey⟩ := List.mem_filter.mp hmem
        obtain ⟨htok, hstate⟩ := List.mem_filter.mp hwait
        have hkey : row.nodeKey = k := by simpa using hkey
        rw [not_or, not_not] at hout
        refine .decide (.decide htok (by simpa using hstate) hkey.symm ?_) hr hchain hdisp
        exact ⟨n, hn, hout.1, hout.2, fun hx => by simpa [hx] using hxor⟩
      · exact absurd h returns_fail

theorem clearDeadline_eq (inst : Instance ι) (id : ι) :
    inst.clearDeadline id = { inst with tokens := inst.tokens.map fun row => { row with
      resumeAt := if row.id = id then none else row.resumeAt } } := by
  unfold Instance.clearDeadline
  congr 1
  refine List.map_congr_left fun row _ => ?_
  split_ifs <;> rfl

theorem clearDeadline_stage (inst : Instance ι) (id : ι) :
    Stage g may inst [] (inst.clearDeadline id) := by
  rw [clearDeadline_eq]
  refine .schedule (fun row => if row.id = id then none else row.resumeAt) fun row _ hne => ?_
  split_ifs at hne
  · exact absurd rfl hne
  · exact .inl hne

theorem Dispatched.clearDeadline (h : Dispatched g inst) (id : ι) :
    Dispatched g (inst.clearDeadline id) := by
  rw [clearDeadline_eq]
  intro row hrow
  obtain ⟨row₀, hrow₀, rfl⟩ := List.mem_map.mp hrow
  exact h row₀ hrow₀

/-- The rows of due timers are handled in stages. -/
theorem fireRows_chain (htimed : ∀ row ∈ rows, (kindAt g row.nodeKey).any (·.timed) = true)
    (h : Returns (fireRows ext env g inst rows) calls (fired, inst')) :
    Chain g may inst calls inst' ∧ (Dispatched g inst → Dispatched g inst') := by
  induction rows generalizing inst calls fired with
  | nil =>
    obtain ⟨rfl, heq⟩ := returns_pure.mp h
    cases heq
    exact ⟨.nil _, id⟩
  | cons row rows ih =>
    have hrest : ∀ row' ∈ rows, (kindAt g row'.nodeKey).any (·.timed) = true :=
      fun row' hrow' => htimed row' (List.mem_cons_of_mem _ hrow')
    have hclear : Chain g may inst [] (inst.clearDeadline row.id) :=
      (clearDeadline_stage inst row.id).chain
    simp only [fireRows] at h
    split_ifs at h with hskip
    · obtain ⟨hchain, hdisp⟩ := ih hrest h
      exact ⟨hclear.trans hchain, fun hd => hdisp (hd.clearDeadline _)⟩
    · rw [not_or, Bool.not_eq_true] at hskip
      simp only [returns_bind, runEngine_returns] at h
      obtain ⟨first, rest, -, ⟨r, hr, rfl, rfl⟩, ⟨more, after, mid, hsettle,
        ⟨later, last, ⟨n, final⟩, hfire, hpure, rfl⟩, rfl⟩, rfl⟩ := h
      obtain ⟨rfl, heq⟩ := returns_pure.mp hpure
      cases heq
      have hmid : Recorded g may (inst.clearDeadline row.id) row.nodeKey _ :=
        .timer (htimed row List.mem_cons_self)
      rw [hmid.call] at hr ⊢
      obtain ⟨hsettled, hdisp⟩ := settleRounds_chain hsettle
      obtain ⟨hchain, hkeep⟩ := ih hrest hfire
      refine ⟨?_, fun _ => hkeep hdisp⟩
      simpa using hclear.trans
        (.cons (.finish hskip.2 hmid (.inr rfl) hr) (hsettled.trans hchain))

theorem fireDueTimers_transacted {now : ℤ}
    (htimed : ∀ row ∈ inst.tokens, row.resumeAt ≠ none →
      (kindAt g row.nodeKey).any (·.timed) = true)
    (h : Returns (fireDueTimers ext env g now inst) calls (fired, inst')) :
    Transacted g may inst calls inst' := by
  have hrows : ∀ row ∈ env.scan (inst.waitingRows.filter fun r => r.resumeAt.any (· ≤ now)),
      (kindAt g row.nodeKey).any (·.timed) = true := by
    intro row hrow
    obtain ⟨hwait, hdue⟩ := List.mem_filter.mp ((env.scan_perm _).mem_iff.mp hrow)
    refine htimed row (List.mem_filter.mp hwait).1 fun hnone => ?_
    simp [hnone] at hdue
  obtain ⟨hchain, hdisp⟩ := fireRows_chain hrows h
  exact .chain hchain hdisp

end Operations

/-! ## Runs -/

/-- What can be asked of the service. -/
inductive Op where
  | advance
  | completeStep (nodeKey : String) (result : Option Json) (actor : Option String)
  | decide (connectorNodeKey : String) (chosenEdgeKeys : List String) (actor : Option String)
  | fireDueTimers (now : ℤ)

/-- The transaction of an operation. -/
def Op.run (ext : Externals) (env : Env ι) (g : DerivedGraph) (inst : Instance ι) :
    Op → Tx ι (Instance ι)
  | .advance => advanceInstance ext env g inst
  | .completeStep k result actor => Workflow.completeStep ext env g inst k result actor
  | .decide k chosen actor => Workflow.decide ext env g inst k chosen actor
  | .fireDueTimers now => do
      let (_, inst) ← Workflow.fireDueTimers ext env g now inst
      pure inst

/-- The instances that runs of the service reach, with the engine calls made on the way.
Each operation is allowed in the state it meets; one that raises changes nothing, so only
those that return are steps. -/
inductive ServiceRun (ext : Externals) (g : DerivedGraph) (allowed : Instance ι → Op → Prop) :
    List (Call ι) → Instance ι → Prop where
  | start {env : Env ι} {id : String} {calls : List (Call ι)} {inst : Instance ι}
      (h : Returns (startInstance ext env g id) calls inst) :
      ServiceRun ext g allowed calls inst
  | op {calls more : List (Call ι)} {inst inst' : Instance ι} {env : Env ι} {op : Op}
      (hrun : ServiceRun ext g allowed calls inst) (hop : allowed inst op)
      (h : Returns (op.run ext env g inst) more inst') :
      ServiceRun ext g allowed (calls ++ more) inst'

variable {allowed : Instance ι → Op → Prop} {ops : List Op}

/-- Operations in sequence, in one environment. -/
def runOps (ext : Externals) (env : Env ι) (g : DerivedGraph) :
    Instance ι → List Op → Tx ι (Instance ι)
  | inst, [] => pure inst
  | inst, op :: ops => do
      let inst ← op.run ext env g inst
      runOps ext env g inst ops

/-- An instance is started, and operations follow. -/
def session (ext : Externals) (env : Env ι) (g : DerivedGraph) (id : String) (ops : List Op) :
    Tx ι (Instance ι) := do
  let inst ← startInstance ext env g id
  runOps ext env g inst ops

/-- A new instance: one active token on the start node. -/
def Instance.new (env : Env ι) (g : DerivedGraph) (id : String) : Instance ι :=
  Instance.insertToken ⟨id, .running, [], [], [], []⟩ env .active (g.start, none)

/-- The states an instance passes through, those between the stages included. -/
inductive StageRun (g : DerivedGraph) (may : String → Prop) :
    List (Call ι) → Instance ι → Prop where
  | new (env : Env ι) (id : String) : StageRun g may [] (Instance.new env g id)
  | stage {calls more : List (Call ι)} {inst inst' : Instance ι}
      (hrun : StageRun g may calls inst) (h : Stage g may inst more inst') :
      StageRun g may (calls ++ more) inst'
  | woken {calls : List (Call ι)} {inst inst' : Instance ι}
      (hrun : StageRun g may calls inst) (h : Woken g inst inst') : StageRun g may calls inst'

section Runs

omit [LinearOrder ι] in
theorem Instance.sound_new (hwf : g.WellFormed) (env : Env ι) (id : String) :
    (Instance.new env g id).Sound g := by
  have htok : (Instance.new env g id).tokens
      = [⟨env.fresh [], g.start, none, .active, none, env.txNow⟩] := rfl
  refine ⟨by simp [htok], ?_, ?_, ?_, ?_⟩
  · intro row hrow
    rw [htok, List.mem_singleton] at hrow
    exact hrow ▸ hwf.start_mem
  · intro row hrow hne
    rw [htok, List.mem_singleton] at hrow
    exact absurd (by rw [hrow]) hne
  · intro res hres
    cases hres
  · intro d hd
    cases hd

/-- **Every state of an instance is sound.** -/
theorem StageRun.sound (hwf : g.WellFormed) (h : StageRun g may calls inst) : inst.Sound g := by
  induction h with
  | new env id => exact Instance.sound_new hwf env id
  | stage _ hs ih => exact hs.sound hwf ih
  | woken _ hw ih => exact hw.sound ih

theorem StageRun.chain (h : StageRun g may calls inst) (hc : Chain g may inst more inst') :
    StageRun g may (calls ++ more) inst' := by
  induction hc generalizing calls with
  | nil => simpa using h
  | cons hs _ ih =>
    rw [← List.append_assoc]
    exact ih (h.stage hs)

theorem StageRun.transacted (h : StageRun g may calls inst)
    (ht : Transacted g may inst more inst') : StageRun g may (calls ++ more) inst' := by
  cases ht with
  | chain hc _ => exact h.chain hc
  | decide hmid hr hc _ => simpa using ((h.woken hmid).stage (.advance hr)).chain hc

/-- Every engine call returned, and resumed a step its finisher may finish. -/
theorem StageRun.calls_spec (h : StageRun g may calls inst) :
    ∀ c ∈ calls, (∃ r, c.outcome g = .ok r) ∧
      ∀ k ∈ c.target, may k ∨ (kindAt g k).any (fun kind => kind.auto || kind.timed) = true := by
  induction h with
  | new env id => simp
  | woken _ _ ih => exact ih
  | stage _ hs ih =>
    intro c hc
    rcases List.mem_append.mp hc with hc | hc
    · exact ih c hc
    · cases hs with
      | schedule f hf => cases hc
      | advance hr =>
        rw [List.mem_singleton.mp hc]
        exact ⟨⟨_, hr⟩, by simp [Instance.call]⟩
      | finish hdone hmid hctx hr =>
        rw [List.mem_singleton.mp hc]
        refine ⟨⟨_, hr⟩, ?_⟩
        rintro k ⟨⟩
        cases hmid with
        | operator hk => exact .inl hk
        | timer hk =>
          cases hkind : kindAt g _ <;> simp_all
        | @auto n kind action hn hkind hauto _ => right; simp [kindAt, hn, hkind, hauto]

/-- Every operation that returns is a transaction. -/
theorem Op.transacted (hs : inst.Sound g) {op : Op}
    (hmay : ∀ k result actor, op = .completeStep k result actor → inst.stepDone k = false →
      (∃ row ∈ inst.tokens, row.nodeKey = k ∧ row.state = .waiting) → may k)
    (h : Returns (op.run ext env g inst) calls inst') : Transacted g may inst calls inst' := by
  cases op with
  | advance => exact advanceInstance_transacted h
  | completeStep k result actor => exact completeStep_transacted (hmay k result actor rfl) h
  | decide k chosen actor => exact decide_transacted h
  | fireDueTimers now =>
    simp only [Op.run, returns_bind] at h
    obtain ⟨first, rest, ⟨fired, last⟩, hfire, hpure, rfl⟩ := h
    obtain ⟨rfl, rfl⟩ := returns_pure.mp hpure
    simpa using fireDueTimers_transacted hs.timed hfire

theorem Chain.quiet (hwf : g.WellFormed) (hs : inst.Sound g) (h : Chain g may inst calls inst')
    (hq : inst.Quiet) : inst'.Quiet := by
  induction h with
  | nil => exact hq
  | cons h _ ih => exact ih (h.sound hwf hs) (h.quiet hwf hs hq)

/-- **What holds between the transactions of a run**: the instance has passed through
stages, no token is active, and no automatic step is left undispatched. -/
theorem ServiceRun.spec (may : String → Prop) (hwf : g.WellFormed)
    (hmay : ∀ inst k result actor, allowed inst (.completeStep k result actor) →
      inst.stepDone k = false → (∃ row ∈ inst.tokens, row.nodeKey = k ∧ row.state = .waiting) →
      may k) (h : ServiceRun ext g allowed calls inst) :
    StageRun g may calls inst ∧ inst.Quiet ∧ Dispatched g inst := by
  induction h with
  | @start env id calls inst h =>
    change Returns (drive ext env g (Instance.new env g id)) calls inst at h
    obtain ⟨r, more, hr, rfl, hchain, hdisp⟩ := drive_returns may h
    have hnew := Instance.sound_new hwf env id
    refine ⟨?_, ?_, hdisp⟩
    · simpa using ((StageRun.new env id).stage (.advance hr)).chain hchain
    · exact hchain.quiet hwf (hnew.apply hwf rfl hr) (hnew.quiet_apply hwf rfl hr)
  | @op calls more inst inst' env op hrun hop h ih =>
    obtain ⟨hstages, hquiet, hdisp⟩ := ih
    have hs := hstages.sound hwf
    have ht : Transacted g may inst more inst' :=
      Op.transacted hs (fun k result actor hk => hmay inst k result actor (hk ▸ hop)) h
    refine ⟨hstages.transacted ht, ?_⟩
    cases ht with
    | chain hc hkeep => exact ⟨hc.quiet hwf hs hquiet, hkeep hdisp⟩
    | decide hmid hr hc hdisp' =>
      have hs' := hmid.sound hs
      exact ⟨hc.quiet hwf (hs'.apply hwf rfl hr) (hs'.quiet_apply hwf rfl hr), hdisp'⟩

theorem ServiceRun.runOps (hrun : ServiceRun ext g allowed calls inst)
    (hops : ∀ op ∈ ops, ∀ inst, allowed inst op)
    (h : Returns (Workflow.runOps ext env g inst ops) more inst') :
    ServiceRun ext g allowed (calls ++ more) inst' := by
  induction ops generalizing calls more inst with
  | nil =>
    obtain ⟨rfl, rfl⟩ := returns_pure.mp h
    simpa using hrun
  | cons op ops ih =>
    simp only [Workflow.runOps, returns_bind] at h
    obtain ⟨ls₁, ls₂, mid, hop, hrest, rfl⟩ := h
    rw [← List.append_assoc]
    exact ih (hrun.op (hops op List.mem_cons_self inst) hop)
      (fun op' h' => hops op' (List.mem_cons_of_mem _ h')) hrest

theorem ServiceRun.of_session {id : String} (hops : ∀ op ∈ ops, ∀ inst, allowed inst op)
    (h : Returns (session ext env g id ops) calls inst) : ServiceRun ext g allowed calls inst := by
  simp only [session, returns_bind] at h
  obtain ⟨ls₁, ls₂, mid, hstart, hrest, rfl⟩ := h
  exact (ServiceRun.start hstart).runOps hops hrest

end Runs

end BbzPlatform.Workflow
