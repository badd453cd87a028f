import BbzPlatform.Workflow.Settling

/-!
# What finishing a step looks at

`resume_function` is given every live token, but few of them decide what it does: those at
the step itself and at the joins ahead of it, and for an OR join whether any other token can
still reach it.  Two calls that agree on these, and on the choices at the splits ahead, make
the same mutations.

The loops of the two calls go in step.  Their work lists agree on the entries that are near,
and the entries that are not near stay as they were loaded.
-/

namespace BbzPlatform.Workflow

open RuleDsl List

variable {ι : Type} {g : DerivedGraph} {k j : String} {read now : Call ι}
  {context context' : Context} {edges : List GraphEdge} {run run' : Run} {n : GraphNode}
  {work rest rest' work' mid : List (W ι)} {p q : W ι → Bool} {s : TokenState} {w : W ι}
  {made : List DecisionMade} {r : EngineResult ι} {tokens : List (Token ι)}

/-- The step itself and the joins ahead of it. -/
def watched (g : DerivedGraph) (k j : String) : Bool :=
  j = k || j ∈ g.descendants k && (g.node? j).any (·.connectorDirection = some .join)

/-- A token that is not at a watched node can still reach the join. -/
def Awaited (g : DerivedGraph) (k : String) (tokens : List (Token ι)) (j : String) : Prop :=
  ∃ t ∈ tokens, watched g k t.nodeKey = false ∧ j ∈ g.descendants t.nodeKey

/-- Two calls agree on what finishing the step at `k` looks at: the tokens at the watched nodes,
whether an OR join ahead is awaited, and the decisions and guards at the nodes ahead. -/
structure Call.SameAhead (g : DerivedGraph) (k : String) (read now : Call ι) : Prop where
  tokens : read.tokens.filter (watched g k ·.nodeKey) = now.tokens.filter (watched g k ·.nodeKey)
  awaited : ∀ j ∈ g.descendants k, g.IsOrJoin j →
    (Awaited g k read.tokens j ↔ Awaited g k now.tokens j)
  decisions : ∀ j ∈ g.descendants k, read.decisions j = now.decisions j
  guards : ∀ j ∈ g.descendants k, ∀ e ∈ g.out j, ∀ c ∈ e.condition,
    guardTrue c read.context = guardTrue c now.context

theorem Call.SameAhead.refl (g : DerivedGraph) (k : String) (c : Call ι) : Call.SameAhead g k c c :=
  ⟨rfl, fun _ _ _ => .rfl, fun _ _ => rfl, fun _ _ _ _ _ _ => rfl⟩

theorem Call.SameAhead.symm (h : Call.SameAhead g k read now) : Call.SameAhead g k now read where
  tokens := h.tokens.symm
  awaited j hj hor := (h.awaited j hj hor).symm
  decisions j hj := (h.decisions j hj).symm
  guards j hj e he c hc := (h.guards j hj e he c hc).symm

/-! ## Choices -/

section

variable (h : ∀ e ∈ edges, ∀ c ∈ e.condition, guardTrue c context = guardTrue c context')
include h

theorem firstGuarded_congr : firstGuarded context edges = firstGuarded context' edges := by
  induction edges with
  | nil => rfl
  | cons e edges ih =>
    have ih := ih fun e' he' => h e' (mem_cons_of_mem _ he')
    cases hc : e.condition with
    | none => simp only [firstGuarded, hc, ih]
    | some c => simp only [firstGuarded, hc, ih, h e mem_cons_self c hc]

theorem openEdges_congr : openEdges context edges = openEdges context' edges := by
  induction edges with
  | nil => rfl
  | cons e edges ih =>
    have ih := ih fun e' he' => h e' (mem_cons_of_mem _ he')
    cases hc : e.condition with
    | none => simp only [openEdges, hc, ih]
    | some c => simp only [openEdges, hc, ih, h e mem_cons_self c hc]

end

/-- A split chooses alike under the same decision and guards of the same values. -/
theorem choose_congr (hidx : run.idx = run'.idx) (hdec : run.decisions n.key = run'.decisions n.key)
    (hguards : ∀ e ∈ run'.idx.out n.key, ∀ c ∈ e.condition,
      guardTrue c run.context = guardTrue c run'.context) : choose run n = choose run' n := by
  have hauto : ∀ exclusive, autoBranches run.context (run'.idx.out n.key) exclusive
      = autoBranches run'.context (run'.idx.out n.key) exclusive := by
    intro exclusive
    rw [autoBranches, autoBranches, firstGuarded_congr hguards, openEdges_congr hguards]
  rw [choose, choose, hidx, hdec, hauto]

/-! ## Entries near the step -/

/-- An entry that was made during the call or stands at a watched node. -/
def near (g : DerivedGraph) (k : String) (w : W ι) : Bool :=
  w.origin = .spawned || watched g k w.nodeKey

/-- The entries are loaded tokens that wait. -/
def Resting (rest : List (W ι)) : Prop :=
  ∀ w ∈ rest, w.origin = .existing ∧ w.state = .waiting ∧ w.wasActive = false

/-- Two work lists agree on the entries near the step, the others are given, and the active
entries are ahead of it. -/
structure Beside (g : DerivedGraph) (k : String) (rest rest' work work' : List (W ι)) : Prop where
  same : work.filter (near g k) = work'.filter (near g k)
  others : work.filter (!near g k ·) = rest
  others' : work'.filter (!near g k ·) = rest'
  ahead : ∀ w ∈ work, w.isActive = true → w.nodeKey ∈ g.descendants k

section

variable (hq : ∀ w s, q { w with state := s } = q w)
include hq

/-- Changing the first entry of those that are kept. -/
theorem filter_setFirst (hpq : ∀ w ∈ work, p w = true → q w = true) :
    (setFirst p s work).filter q = setFirst p s (work.filter q) := by
  induction work with
  | nil => rfl
  | cons w work ih =>
    have ih := ih fun w' hw' => hpq w' (mem_cons_of_mem _ hw')
    have hhead := hpq w mem_cons_self
    by_cases hp : p w = true
    · simp [setFirst, hp, hq, hhead hp]
    · by_cases hk : q w = true
      · simp [setFirst, hp, hk, ih]
      · simp [setFirst, hp, hk, ih]

/-- Changing the first entry of those that are dropped. -/
theorem filter_setFirst_of_not (hpq : ∀ w ∈ work, p w = true → q w = false) :
    (setFirst p s work).filter q = work.filter q := by
  induction work with
  | nil => rfl
  | cons w work ih =>
    have ih := ih fun w' hw' => hpq w' (mem_cons_of_mem _ hw')
    by_cases hp : p w = true
    · simp [setFirst, hp, hq, hpq w mem_cons_self hp]
    · simp [setFirst, hp, filter_cons, ih]

theorem filter_map_consumeAt :
    (work.map (consumeAt j)).filter q = (work.filter q).map (consumeAt j) := by
  rw [filter_map]
  congr 1
  refine filter_congr fun w _ => ?_
  simp only [Function.comp_apply, consumeAt]
  split_ifs
  · exact hq w _
  · rfl

end

/-- A test that only entries of a kind satisfy looks only at these. -/
theorem filter_filter_of_imp (hpq : ∀ w, p w = true → q w = true) :
    (work.filter q).filter p = work.filter p := by
  rw [filter_filter]
  refine filter_congr fun w _ => ?_
  cases hp : p w with
  | false => rfl
  | true => simp [hpq w hp]

theorem near_state (w : W ι) (s : TokenState) : near g k { w with state := s } = near g k w := rfl

theorem near_of_node (hj : watched g k j = true) (hw : w.nodeKey = j) : near g k w = true := by
  simp [near, hw, hj]

/-- The nodes ahead are closed under edges. -/
theorem toKey_mem_descendants (hc : g.Closed) (hj : j ∈ g.descendants k) {e : GraphEdge}
    (he : e ∈ g.out j) : e.toKey ∈ g.descendants k := by
  obtain ⟨hmem, hfrom⟩ := DerivedGraph.mem_out.mp he
  rw [DerivedGraph.mem_descendants hc] at hj ⊢
  exact hj.tail ⟨e, hmem, hfrom, rfl⟩

namespace Beside

/-! ### What both loops see -/

theorem near_of_isActive (hothers : work.filter (!near g k ·) = rest) (hrest : Resting rest)
    (hw : w ∈ work) (hact : w.isActive = true) : near g k w = true := by
  by_contra hfar
  have hmem : w ∈ rest := by
    rw [← hothers]
    exact mem_filter.mpr ⟨hw, by simp [hfar]⟩
  simp [W.isActive, (hrest w hmem).2.1] at hact

/-- The first entry of a kind that only near entries are of. -/
theorem find?_eq (h : Beside g k rest rest' work work')
    (hp : ∀ w ∈ work, p w = true → near g k w = true)
    (hp' : ∀ w ∈ work', p w = true → near g k w = true) : work.find? p = work'.find? p := by
  have hcore : ∀ l : List (W ι), (∀ w ∈ l, p w = true → near g k w = true) →
      l.find? p = (l.filter (near g k)).find? p := by
    intro l hl
    induction l with
    | nil => rfl
    | cons w l ih =>
      have ih := ih fun w' hw' => hl w' (mem_cons_of_mem _ hw')
      by_cases hw : p w = true
      · simp [hw, hl w mem_cons_self hw]
      · by_cases hn : near g k w = true
        · simp [hw, hn, ih]
        · simp [hw, hn, ih]
  rw [hcore work hp, hcore work' hp', h.same]

theorem present_eq (h : Beside g k rest rest' work work') (hj : watched g k j = true) :
    present work j = present work' j := by
  have hnear : ∀ w : W ι, (w.nodeKey = j && w.isLive) = true → near g k w = true := by
    intro w hw
    simp only [Bool.and_eq_true, decide_eq_true_eq] at hw
    exact near_of_node hj hw.1
  calc present work j = present (work.filter (near g k)) j := (filter_filter_of_imp hnear).symm
    _ = present (work'.filter (near g k)) j := by rw [h.same]
    _ = present work' j := filter_filter_of_imp hnear

/-- The live entries elsewhere that can reach a join, told apart by where they are. -/
theorem stillComing_iff (hidx : run.idx = g.index) (hrest : Resting rest)
    (hothers : work.filter (!near g k ·) = rest) (hj : watched g k j = true) :
    stillComing run work j = true ↔
      ((work.filter (near g k)).any fun w =>
        w.isLive && w.nodeKey ≠ j && j ∈ g.descendants w.nodeKey) = true ∨
      ∃ w ∈ rest, j ∈ g.descendants w.nodeKey := by
  simp only [stillComing, hidx, DerivedGraph.index, any_eq_true]
  constructor
  · rintro ⟨w, hw, hreach⟩
    by_cases hn : near g k w = true
    · exact .inl ⟨w, mem_filter.mpr ⟨hw, hn⟩, hreach⟩
    · refine .inr ⟨w, ?_, ?_⟩
      · rw [← hothers]
        exact mem_filter.mpr ⟨hw, by simp [hn]⟩
      · simp only [Bool.and_eq_true, decide_eq_true_eq] at hreach
        exact hreach.2
  · rintro (⟨w, hw, hreach⟩ | ⟨w, hw, hreach⟩)
    · exact ⟨w, (mem_filter.mp hw).1, hreach⟩
    · have hmem : w ∈ work.filter (!near g k ·) := hothers ▸ hw
      obtain ⟨hwork, hfar⟩ := mem_filter.mp hmem
      refine ⟨w, hwork, ?_⟩
      have hne : w.nodeKey ≠ j := by
        intro heq
        simp [near_of_node hj heq] at hfar
      simp [W.isLive, (hrest w hw).2.1, hne, hreach]

/-! ### What both loops do -/

section

variable (h : Beside g k rest rest' work work')
include h

/-- What is active after a change of states was active before. -/
theorem ahead_restated (hres : Forall₂ Restated work mid) :
    ∀ w ∈ mid, w.isActive = true → w.nodeKey ∈ g.descendants k := by
  intro w hw hact
  obtain ⟨v, hv, heq, hback, -⟩ := Rows.exists_of_forall₂ hres hw
  have hvact : v.isActive = true := by
    simp only [W.isActive, decide_eq_true_eq] at hact ⊢
    exact hback hact
  rw [heq]
  exact h.ahead v hv hvact

/-- Both loops change the state of the first entry of a kind that only near entries are of. -/
theorem setFirst (hp : ∀ w ∈ work, p w = true → near g k w = true)
    (hp' : ∀ w ∈ work', p w = true → near g k w = true)
    (hlive : ∀ w, p w = true → w.isLive = true) (hs : s ≠ .active) :
    Beside g k rest rest' (setFirst p s work) (setFirst p s work') := by
  have hnot : ∀ l : List (W ι), (∀ w ∈ l, p w = true → near g k w = true) →
      ∀ w ∈ l, p w = true → (!near g k w) = false := by
    intro l hl w hw hpw
    simp [hl w hw hpw]
  refine ⟨?_, ?_, ?_, ?_⟩
  · rw [filter_setFirst near_state hp, filter_setFirst near_state hp', h.same]
  · rw [filter_setFirst_of_not (fun _ _ => rfl) (hnot work hp), h.others]
  · rw [filter_setFirst_of_not (fun _ _ => rfl) (hnot work' hp'), h.others']
  · exact h.ahead_restated (restated_setFirst hlive hs)

/-- Both loops change the state of the first active entry. -/
theorem setActive (hrest : Resting rest) (hrest' : Resting rest') (hs : s ≠ .active) :
    Beside g k rest rest' (Workflow.setFirst W.isActive s work)
      (Workflow.setFirst W.isActive s work') :=
  h.setFirst (fun _ => near_of_isActive h.others hrest) (fun _ => near_of_isActive h.others' hrest')
    (fun _ => W.isLive_of_isActive) hs

/-- Both loops put tokens ahead. -/
theorem spawnOn (hedges : ∀ e ∈ edges, e.toKey ∈ g.descendants k) :
    Beside g k rest rest' (spawnOn work edges) (spawnOn work' edges) := by
  have hnear : ∀ w ∈ edges.map (spawnedAt : GraphEdge → W ι), near g k w = true := by
    intro w hw
    obtain ⟨e, -, rfl⟩ := mem_map.mp hw
    rfl
  have hfar : ∀ w ∈ edges.map (spawnedAt : GraphEdge → W ι), (!near g k w) ≠ true := by
    intro w hw
    simp [hnear w hw]
  refine ⟨?_, ?_, ?_, ?_⟩
  · rw [Workflow.spawnOn, Workflow.spawnOn, filter_append, filter_append, h.same]
  · rw [Workflow.spawnOn, filter_append, h.others, filter_eq_nil_iff.mpr hfar,
      append_nil]
  · rw [Workflow.spawnOn, filter_append, h.others', filter_eq_nil_iff.mpr hfar,
      append_nil]
  · intro w hw hact
    rcases mem_append.mp hw with hw | hw
    · exact h.ahead w hw hact
    · obtain ⟨e, he, rfl⟩ := mem_map.mp hw
      exact hedges e he

end

/-- Both calls consume the first token at the step and move it on. -/
theorem resume (hc : g.Closed) (h : Beside g k rest rest' work work') :
    work'.find? (waitingAt k) = work.find? (waitingAt k) ∧
    Beside g k rest rest'
      (Workflow.spawnOn (Workflow.setFirst (waitingAt k) .consumed work) (g.out k))
      (Workflow.spawnOn (Workflow.setFirst (waitingAt k) .consumed work') (g.out k)) := by
  have hnear : ∀ w : W ι, waitingAt k w = true → near g k w = true := by
    intro w hw
    exact near_of_node (by simp [watched]) (waitingAt_iff.mp hw).1
  refine ⟨(h.find?_eq (fun w _ => hnear w) fun w _ => hnear w).symm, ?_⟩
  refine (h.setFirst (fun w _ => hnear w) (fun w _ => hnear w)
    (fun _ => isLive_of_waitingAt) (by decide)).spawnOn fun e he => ?_
  obtain ⟨hmem, hfrom⟩ := DerivedGraph.mem_out.mp he
  exact (DerivedGraph.mem_descendants hc).mpr (.single ⟨e, hmem, hfrom, rfl⟩)

theorem consume (h : Beside g k rest rest' work work') (hj : watched g k j = true) :
    Beside g k rest rest' (work.map (consumeAt j)) (work'.map (consumeAt j)) := by
  have hkeep : ∀ l : List (W ι),
      (l.filter (!near g k ·)).map (consumeAt j) = l.filter (!near g k ·) := by
    intro l
    refine (map_congr_left fun w hw => ?_).trans (map_id _)
    have hne : w.nodeKey ≠ j := by
      intro heq
      simp [near_of_node hj heq] at hw
    simp [consumeAt, hne]
  refine ⟨?_, ?_, ?_, ?_⟩
  · rw [filter_map_consumeAt near_state, filter_map_consumeAt near_state, h.same]
  · rw [filter_map_consumeAt fun _ _ => rfl, hkeep, h.others]
  · rw [filter_map_consumeAt fun _ _ => rfl, hkeep, h.others']
  · exact h.ahead_restated (restated_map_consumeAt j)

/-! ### One iteration -/

/-- What the two runs have in common: the index, the choices ahead, and which OR joins ahead
are awaited by the entries that are not near. -/
structure SameRuns (g : DerivedGraph) (k : String) (rest rest' : List (W ι)) (run run' : Run) :
    Prop where
  idx : run.idx = g.index
  idx' : run'.idx = g.index
  resting : Resting rest
  resting' : Resting rest'
  choices : ∀ n, n.key ∈ g.descendants k → choose run n = choose run' n
  awaited : ∀ j ∈ g.descendants k, g.IsOrJoin j →
    ((∃ w ∈ rest, j ∈ g.descendants w.nodeKey) ↔ ∃ w ∈ rest', j ∈ g.descendants w.nodeKey)

section

variable (hs : SameRuns g k rest rest' run run')
include hs

theorem fireJoin (h : Beside g k rest rest' work work') (hj : watched g k j = true)
    (hout : ∀ e ∈ g.out j, e.toKey ∈ g.descendants k) :
    Beside g k rest rest' (fireJoin run work j) (fireJoin run' work' j) := by
  have hfire := (h.consume hj).spawnOn hout
  rw [fireJoin_eq, fireJoin_eq, hs.idx, hs.idx']
  exact hfire

/-- Both loops try the same join. -/
theorem join (h : Beside g k rest rest' work work') (hn : g.node? j = some n)
    (hj : j ∈ g.descendants k) (hout : ∀ e ∈ g.out j, e.toKey ∈ g.descendants k)
    (hdir : n.connectorDirection = some .join) :
    Beside g k rest rest' (maybeFireAndJoin run work j) (maybeFireAndJoin run' work' j) ∧
    Beside g k rest rest' (fireChoiceJoin run work j) (fireChoiceJoin run' work' j) ∧
    (g.IsOrJoin j →
      Beside g k rest rest' (maybeFireOrJoin run work j) (maybeFireOrJoin run' work' j)) := by
  have hw : watched g k j = true := by simp [watched, hj, hn, hdir]
  have hpresent := h.present_eq hw
  have hfire := h.fireJoin hs hw hout
  refine ⟨?_, ?_, fun hor => ?_⟩
  · simp only [maybeFireAndJoin, hpresent, hs.idx, hs.idx']
    split_ifs
    · exact h
    · exact hfire
  · simp only [fireChoiceJoin, hpresent]
    split_ifs
    · exact h
    · exact hfire
  · have hcoming : stillComing run work j = stillComing run' work' j := by
      rw [Bool.eq_iff_iff, stillComing_iff hs.idx hs.resting h.others hw,
        stillComing_iff hs.idx' hs.resting' h.others' hw, h.same, hs.awaited j hj hor]
    simp only [maybeFireOrJoin, hpresent, hcoming]
    split_ifs
    · exact h
    · exact h
    · exact hfire

/-- Both loops choose alike. -/
theorem choiceSplit (hpass : Beside g k rest rest' (Workflow.setFirst W.isActive .consumed work)
      (Workflow.setFirst W.isActive .consumed work'))
    (hpark : Beside g k rest rest' (Workflow.setFirst W.isActive .waiting work)
      (Workflow.setFirst W.isActive .waiting work'))
    (hj : n.key ∈ g.descendants k) (hout : ∀ e ∈ g.out n.key, e.toKey ∈ g.descendants k)
    (hp : choiceSplit run work n = .ok (mid, made)) :
    ∃ mid', Workflow.choiceSplit run' work' n = .ok (mid', made) ∧
      Beside g k rest rest' mid mid' := by
  unfold Workflow.choiceSplit at hp ⊢
  rw [← hs.choices n hj]
  cases hch : choose run n with
  | error err => rw [hch] at hp; cases hp
  | ok picked =>
    cases picked with
    | none =>
      simp only [hch] at hp ⊢
      cases hp
      exact ⟨_, rfl, hpark⟩
    | some taken =>
      obtain ⟨edges, report⟩ := taken
      simp only [hch] at hp ⊢
      cases hp
      refine ⟨_, rfl, hpass.spawnOn fun e he => hout e ?_⟩
      have hsub := (choose_spec hch).1.subset he
      rwa [hs.idx] at hsub

end

/-- **One iteration does the same beside other tokens.** -/
theorem process (hc : g.Closed) (hs : SameRuns g k rest rest' run run')
    (h : Beside g k rest rest' work work') (hw : work.find? W.isActive = some w)
    (hp : process run work w = .ok (mid, made)) :
    ∃ mid', Workflow.process run' work' w = .ok (mid', made) ∧
      Beside g k rest rest' mid mid' := by
  have hj := h.ahead w (mem_of_find?_eq_some hw) (find?_some hw)
  have hout : ∀ e ∈ g.out w.nodeKey, e.toKey ∈ g.descendants k :=
    fun e => toKey_mem_descendants hc hj
  have hpass := h.setActive hs.resting hs.resting' (s := .consumed) (by decide)
  have hpark := h.setActive hs.resting hs.resting' (s := .waiting) (by decide)
  cases hn : g.index.nodes w.nodeKey with
  | none => simp only [Workflow.process, hs.idx, hn, reduceCtorEq] at hp
  | some n =>
    have hkey : n.key = w.nodeKey := DerivedGraph.node?_key hn
    obtain ⟨role, f, hr, hf, hprocess⟩ := process_treated (ι := ι) n
    rw [hprocess run work w (by rwa [hs.idx])] at hp
    rw [hprocess run' work' w (by rwa [hs.idx'])]
    rw [← hkey] at hn hj hout
    cases hf with
    | pass =>
      simp only [hs.idx, hs.idx'] at hp ⊢
      cases hp
      exact ⟨_, rfl, hpass.spawnOn hout⟩
    | task =>
      cases hp
      exact ⟨_, rfl, hpark⟩
    | choice => exact choiceSplit hs hpass hpark hj hout hp
    | andJoin hdir =>
      cases hp
      exact ⟨_, rfl, (hpark.join hs hn hj hout hdir).1⟩
    | xorJoin hdir =>
      cases hp
      exact ⟨_, rfl, (hpark.join hs hn hj hout hdir).2.1⟩
    | orJoin htype hdir hand hxor =>
      cases hp
      exact ⟨_, rfl, (hpark.join hs hn hj hout hdir).2.2 ⟨n, hn, htype, hdir, hand, hxor⟩⟩
    | raises => cases hp

/-- Both loops have the same first active entry. -/
theorem find?_isActive (hs : SameRuns g k rest rest' run run')
    (h : Beside g k rest rest' work work') : work'.find? W.isActive = work.find? W.isActive :=
  (h.find?_eq (fun _ => near_of_isActive h.others hs.resting)
    fun _ => near_of_isActive h.others' hs.resting').symm

/-- **The loops go in step**, until the second one runs out of its budget. -/
theorem loop {fuel fuel' : ℕ} (hc : g.Closed) (hs : SameRuns g k rest rest' run run')
    (h : Beside g k rest rest' work work') (hl : loop run fuel work = .ok (mid, made)) :
    (∃ mid', Workflow.loop run' fuel' work' = .ok (mid', made) ∧
      Beside g k rest rest' mid mid') ∨
    Workflow.loop run' fuel' work' = .error .didNotSettle := by
  refine loop_induction (P := fun _ work made => ∀ fuel' work', Beside g k rest rest' work work' →
    (∃ mid', Workflow.loop run' fuel' work' = .ok (mid', made) ∧ Beside g k rest rest' mid mid') ∨
    Workflow.loop run' fuel' work' = .error .didNotSettle) ?_ ?_ hl fuel' work' h
  · intro _ hw fuel' work' h
    exact .inl ⟨work', loop_none ((h.find?_isActive hs).trans hw), h⟩
  · intro _ work w next made later hw hp ih fuel' work' h
    have hw' : work'.find? W.isActive = some w := (h.find?_isActive hs).trans hw
    obtain ⟨next', hp', hnext⟩ := h.process hc hs hw hp
    rw [Workflow.loop]
    simp only [hw']
    cases fuel' with
    | zero => exact .inr rfl
    | succ fuel' =>
      rcases ih fuel' next' hnext with ⟨mid', hl', hmid⟩ | hl'
      · exact .inl ⟨mid', by simp only [hp', hl', bind, Except.bind], hmid⟩
      · exact .inr (by simp only [hp', hl', bind, Except.bind])

/-! ### The mutations -/

/-- What a work list reports through near entries alone. -/
theorem filterMap_eq {α : Type} {f : W ι → Option α} (h : Beside g k rest rest' work work')
    (hrest : ∀ w ∈ rest, f w = none) (hrest' : ∀ w ∈ rest', f w = none) :
    work.filterMap f = work'.filterMap f := by
  have hcore : ∀ l : List (W ι), (∀ w ∈ l.filter (!near g k ·), f w = none) →
      l.filterMap f = (l.filter (near g k)).filterMap f := by
    intro l hl
    rw [filterMap_filter]
    refine filterMap_congr fun w hw => ?_
    by_cases hn : near g k w = true
    · simp [hn]
    · simp [hn, hl w (mem_filter.mpr ⟨hw, by simp [hn]⟩)]
  rw [hcore work (h.others ▸ hrest), hcore work' (h.others' ▸ hrest'), h.same]

/-- The two loops report the same mutations. -/
theorem result
    (h : Beside g k rest rest' work work') (hrest : Resting rest) (hrest' : Resting rest')
    (hquiet : ∀ w ∈ work', w.isActive = false) (hr : result work made = .ok r) :
    ∃ completed, Workflow.result work' made = .ok { r with completed := completed } := by
  have hcons : consumedIds work' = consumedIds work :=
    (h.filterMap_eq (fun w hw => by simp [(hrest w hw).2.1])
      fun w hw => by simp [(hrest' w hw).2.1]).symm
  have hpark : parkedIds work' = parkedIds work :=
    (h.filterMap_eq (fun w hw => by simp [(hrest w hw).2.2])
      fun w hw => by simp [(hrest' w hw).2.2]).symm
  have hspawn : spawnedPairs work' = spawnedPairs work :=
    (h.filterMap_eq (fun w hw => by simp [(hrest w hw).1])
      fun w hw => by simp [(hrest' w hw).1]).symm
  refine ⟨!work'.any W.isLive, ?_⟩
  rw [result_of_quiet hquiet, result_ok hr, hcons, hpark, hspawn]

end Beside

/-! ## Calls that agree ahead of the step -/

/-- The entries of the tokens that are not watched. -/
def restOf (g : DerivedGraph) (k : String) (tokens : List (Token ι)) : List (W ι) :=
  (tokens.filter (!watched g k ·.nodeKey)).map Token.entry

theorem resting_restOf (hw : ∀ t ∈ tokens, t.state = .waiting) : Resting (restOf g k tokens) := by
  intro w hmem
  obtain ⟨t, ht, rfl⟩ := mem_map.mp hmem
  have hwait := hw t (mem_filter.mp ht).1
  exact ⟨rfl, hwait, by simp [Token.entry, hwait]⟩

theorem near_entry (t : Token ι) : near g k t.entry = watched g k t.nodeKey := by
  simp [near, Token.entry]

theorem awaited_iff :
    (∃ w ∈ restOf g k tokens, j ∈ g.descendants w.nodeKey) ↔ Awaited g k tokens j := by
  simp [restOf, Awaited, Token.entry, and_assoc]

/-- The two runs of calls that agree have in common what their loops need. -/
theorem Call.SameAhead.sameRuns (h : Call.SameAhead g k read now)
    (hread : ∀ t ∈ read.tokens, t.state = .waiting) (hnow : ∀ t ∈ now.tokens, t.state = .waiting) :
    Beside.SameRuns g k (restOf g k read.tokens) (restOf g k now.tokens)
      (g.run read.context read.decisions) (g.run now.context now.decisions) where
  idx := rfl
  idx' := rfl
  resting := resting_restOf hread
  resting' := resting_restOf hnow
  choices n hn := choose_congr rfl (h.decisions _ hn) (h.guards _ hn)
  awaited j hj hor := by rw [awaited_iff, awaited_iff, h.awaited j hj hor]

theorem Call.SameAhead.loaded (h : Call.SameAhead g k read now)
    (hread : ∀ t ∈ read.tokens, t.state = .waiting) :
    Beside g k (restOf g k read.tokens) (restOf g k now.tokens)
      (read.tokens.map Token.entry) (now.tokens.map Token.entry) := by
  have hnear : near g k ∘ Token.entry = fun t : Token ι => watched g k t.nodeKey :=
    funext near_entry
  have hfar : (fun w => !near g k w) ∘ Token.entry = fun t : Token ι => !watched g k t.nodeKey :=
    funext fun t => by simp [near_entry]
  refine ⟨?_, ?_, ?_, ?_⟩
  · rw [filter_map, filter_map, hnear, h.tokens]
  · rw [filter_map, hfar, restOf]
  · rw [filter_map, hfar, restOf]
  · intro w hw hact
    obtain ⟨t, ht, rfl⟩ := mem_map.mp hw
    simp [W.isActive, Token.entry, hread t ht] at hact

/-- **What finishing a step does depends only on what it looks at**: a call that agrees with one
that returned makes the same mutations, unless it runs out of its budget. -/
theorem Call.SameAhead.outcome (hc : g.Closed) (h : Call.SameAhead g k read now)
    (htarget : read.target = some k) (htarget' : now.target = some k)
    (hread : ∀ t ∈ read.tokens, t.state = .waiting)
    (hnow : ∀ t ∈ now.tokens, t.state = .waiting) (hr : read.outcome g = .ok r) :
    (∃ completed, now.outcome g = .ok { r with completed := completed }) ∨
      now.outcome g = .error .didNotSettle := by
  obtain ⟨work, made, hfinish, hres⟩ := Call.outcome_ok hr
  obtain ⟨-, work₀, henter, hloop, loaded, hload, hresume⟩ := Call.finish_ok hfinish
  obtain rfl := eq_map_entry hload
  rw [htarget] at hresume
  have hs := h.sameRuns hread hnow
  obtain ⟨hfind, hbeside⟩ := (h.loaded hread).resume hc
  simp only [resumeWork] at hresume
  cases hw : (read.tokens.map Token.entry).find? (waitingAt k) with
  | none => rw [hw] at hresume; cases hresume
  | some w =>
    rw [hw] at hresume hfind
    cases hresume
    have henter' : now.enter g = .ok (g.run now.context now.decisions,
        spawnOn (setFirst (waitingAt k) .consumed (now.tokens.map Token.entry)) (g.out k)) := by
      have hrun : (mkRun g now.context now.decisions : Except (EngineError ι) Run)
          = .ok (g.run now.context now.decisions) := mkRun_eq_ok.mpr ⟨hc, rfl⟩
      rw [Call.enter, hrun, mapM_mkExisting fun t ht => by simp [hnow t ht], htarget']
      simp only [bind, Except.bind, resumeWork, hfind]
      rfl
    rcases hbeside.loop hc hs hloop with ⟨work', hloop', hend⟩ | hloop'
    · obtain ⟨completed, hres'⟩ := hend.result hs.resting hs.resting' (loop_quiet hloop') hres
      refine .inl ⟨completed, ?_⟩
      rw [Call.outcome, Call.finish, henter']
      simp only [bind, Except.bind, runLoop]
      rw [hloop']
      exact hres'
    · exact .inr (Call.outcome_of_loop henter' hloop')

end BbzPlatform.Workflow
